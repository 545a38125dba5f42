import AttoHTTP.Library.Base64
import AttoHTTP.Model.Base64

namespace AttoHTTP
open Library Comp

/-! ## Writing with an exit after every character -/

structure Base64Loop.Holds (m : Mem) (text : List UInt8) (i : UInt16) (t : Base64Loop) : Prop where
  output : t.output = m.put text
  o : t.o.toNat = text.length
  i : t.i = i

/-- A round has written its part of the text and the rest is to come, or the output holds all of
the text that it will. -/
inductive Reaches (m : Mem) (olen i : UInt16) (rest final : List UInt8) :
    Except Base64Loop Base64Loop → Prop
  | next {t : Base64Loop} {text : List UInt8} (holds : t.Holds m text i)
      (short : text.length ≤ olen.toNat) (split : text ++ rest = final) :
      Reaches m olen i rest final (.ok t)
  | last {t : Base64Loop} (holds : t.Holds m (final.take olen.toNat) i) :
      Reaches m olen i rest final (.error t)

variable {m : Mem} {olen i : UInt16} {text rest final : List UInt8} {t : Base64Loop}

theorem Reaches.room {f : Base64Loop → Except Base64Loop Base64Loop} (holds : t.Holds m text i)
    (short : text.length ≤ olen.toNat) (started : text <+: final)
    (go : text.length < olen.toNat → Reaches m olen i rest final (f t)) :
    Reaches m olen i rest final (t.room olen >>= f) := by
  unfold Base64Loop.room
  by_cases full : olen ≤ t.o
  · rw [if_pos full]
    have equal : text.length = olen.toNat := by
      rw [UInt16.le_iff_toNat_le, holds.o] at full
      omega
    refine .last ?_
    rw [← equal, ← List.prefix_iff_eq_take.mp started]
    exact holds
  · rw [if_neg full]
    refine go ?_
    rw [UInt16.le_iff_toNat_le, holds.o] at full
    omega

theorem Base64Loop.Holds.emit (holds : t.Holds m text i) (room : text.length < olen.toNat)
    (c : UInt8) : (t.emit c).Holds m (text ++ [c]) i := by
  have small := olen.toNat_lt
  refine ⟨?_, ?_, holds.i⟩
  · simp only [Base64Loop.emit, holds.output, holds.o]
    exact Mem.put_set m text c
  · simp only [Base64Loop.emit, UInt16.toNat_add, UInt16.toNat_one, holds.o, List.length_append,
      List.length_singleton]
    omega

theorem length_emit (room : text.length < olen.toNat) (c : UInt8) :
    (text ++ [c]).length ≤ olen.toNat := by
  rw [List.length_append]
  exact room

/-- The loop, given what one round does: `chars i` is the text for the input from index `i` on. -/
theorem base64_loop {ilen width : UInt16} {group : Base64Loop → Except Base64Loop Base64Loop}
    (chars : Nat → List UInt8) (wide : 0 < width.toNat)
    (fits : ∀ t t' : Base64Loop, t.i.toNat % width.toNat = 0 → t.i < ilen → group t = .ok t' →
      t.i.toNat + width.toNat < 2 ^ 16)
    (past : ∀ i, ilen.toNat ≤ i → chars i = [])
    (round : ∀ (t : Base64Loop) (text : List UInt8) (i : UInt16), t.Holds m text i →
      text.length ≤ olen.toNat → i < ilen →
      Reaches m olen i (chars (i.toNat + width.toNat)) (text ++ chars i.toNat) (group t))
    (holds : t.Holds m text i) (aligned : i.toNat % width.toNat = 0)
    (short : text.length ≤ olen.toNat) :
    ∃ t' i', (doWhile (base64Step ilen width group) t).Returns t' ∧
      t'.Holds m ((text ++ chars i.toNat).take olen.toNat) i' := by
  induction left : ilen.toNat - i.toNat using Nat.strongRecOn generalizing t text i with
  | ind n ih =>
      by_cases inside : i < ilen
      · have before := UInt16.lt_iff_toNat_lt.mp inside
        have reached := round t text i holds short inside
        cases out : group t with
        | error t' =>
            have step : base64Step ilen width group t = (t', false) := by
              rw [base64Step, holds.i, if_pos inside, out]
            rw [out] at reached
            cases reached with
            | last holds' => exact ⟨t', i, (doWhile_exit (by rw [step])).mpr (by rw [step]), holds'⟩
        | ok t' =>
            have step : base64Step ilen width group t = ({ t' with i := t'.i + width }, true) := by
              rw [base64Step, holds.i, if_pos inside, out]
            rw [out] at reached
            cases reached with
            | @next _ text' holds' short' split =>
                have advance : (i + width).toNat = i.toNat + width.toNat := by
                  rw [UInt16.toNat_add]
                  exact Nat.mod_eq_of_lt (holds.i ▸ fits t t' (holds.i ▸ aligned) (holds.i ▸ inside) out)
                have moved : ({ t' with i := t'.i + width } : Base64Loop).Holds m text' (i + width) :=
                  ⟨holds'.output, holds'.o, by rw [holds'.i]⟩
                obtain ⟨t'', i'', run, done⟩ := ih (ilen.toNat - (i + width).toNat) (by omega) moved
                  (by rw [advance, Nat.add_mod_right, aligned]) short' rfl
                rw [advance, split] at done
                refine ⟨t'', i'', (doWhile_next (by rw [step])).mpr ?_, done⟩
                rw [step]
                exact run
      · have stop : base64Step ilen width group t = (t, false) := by
          rw [base64Step, holds.i, if_neg inside]
        refine ⟨t, i, (doWhile_exit (by rw [stop])).mpr (by rw [stop]), ?_⟩
        rw [past i.toNat (by rw [UInt16.lt_iff_toNat_lt] at inside; omega), List.append_nil,
          List.take_of_length_le short]
        exact holds

theorem terminate_holds (room : 0 < olen) (holds : t.Holds m (text.take olen.toNat) i) :
    (t.terminate olen).1.toNat = min text.length (olen.toNat - 1) ∧
      (t.terminate olen).2 = m.put (text.take (olen.toNat - 1) ++ [0]) := by
  have positive : 0 < olen.toNat := UInt16.lt_iff_toNat_lt.mp room
  have count := holds.o
  rw [List.length_take] at count
  simp only [Base64Loop.terminate]
  by_cases full : olen ≤ t.o
  · have long : olen.toNat ≤ text.length := by
      rw [UInt16.le_iff_toNat_le, count] at full
      omega
    have back : (olen - 1).toNat = olen.toNat - 1 :=
      UInt16.toNat_sub_of_le _ _ (UInt16.le_iff_toNat_le.mpr positive)
    rw [if_pos full, back]
    refine ⟨by omega, ?_⟩
    -- The last character written gives way to the terminator.
    obtain ⟨b, last⟩ : ∃ b, text.take olen.toNat = text.take (olen.toNat - 1) ++ [b] := by
      have last : olen.toNat - 1 < text.length := by omega
      refine ⟨text[olen.toNat - 1], ?_⟩
      rw [← List.take_succ_eq_append_getElem last, Nat.sub_add_cancel positive]
    have size : (text.take (olen.toNat - 1)).length = olen.toNat - 1 := by
      rw [List.length_take]
      omega
    have past := Mem.put_append_set m (text.take (olen.toNat - 1)) b 0
    rw [size] at past
    rw [holds.output, last]
    exact past
  · have short : text.length < olen.toNat := by
      rw [UInt16.le_iff_toNat_le, count] at full
      omega
    rw [if_neg full]
    refine ⟨by omega, ?_⟩
    rw [holds.output, List.take_of_length_le short.le, List.take_of_length_le (by omega),
      show t.o.toNat = text.length by omega]
    exact Mem.put_set _ _ _

theorem drop_bytes (m : Mem) {i n : Nat} (inside : i < n) :
    (m.bytes n).drop i = m i :: (m.bytes n).drop (i + 1) := by
  rw [List.drop_eq_getElem_cons (by rwa [Mem.length_bytes])]
  simp [Mem.bytes]

theorem drop_bytes_over (m : Mem) {i n : Nat} (past : n ≤ i) : (m.bytes n).drop i = [] :=
  List.drop_of_length_le (by rwa [Mem.length_bytes])

/-! ## Encoding -/

def written : List UInt8 → List UInt8
  | [] => []
  | [a] => [base64Char (sextetRight a 2), base64Char (sextetLeft a 4), 61, 61]
  | [a, b] =>
      [base64Char (sextetRight a 2), base64Char (sextetLeft a 4 ||| sextetRight b 4),
        base64Char (sextetLeft b 2), 61]
  | a :: b :: c :: bytes =>
      base64Char (sextetRight a 2) :: base64Char (sextetLeft a 4 ||| sextetRight b 4) ::
        base64Char (sextetLeft b 2 ||| sextetRight c 6) :: base64Char (sextetRight c 0) ::
          written bytes

theorem encodeGroup_reaches (input : Mem) {ilen : UInt16} (holds : t.Holds m text i)
    (short : text.length ≤ olen.toNat) (inside : i < ilen) :
    Reaches m olen i (written ((input.bytes ilen.toNat).drop (i.toNat + 3)))
      (text ++ written ((input.bytes ilen.toNat).drop i.toNat)) (encodeGroup input ilen olen t) := by
  unfold encodeGroup
  simp only [holds.i]
  rw [drop_bytes input (UInt16.lt_iff_toNat_lt.mp inside)]
  by_cases two : i.toNat + 1 < ilen.toNat
  · simp only [if_pos two]
    rw [drop_bytes input two]
    by_cases three : i.toNat + 2 < ilen.toNat
    · simp only [if_pos three]
      rw [drop_bytes input three]
      refine .room holds short (List.prefix_append _ _) fun room => ?_
      have one := holds.emit room (base64Char (sextetRight (input i.toNat) 2))
      refine .room one (length_emit room _) (by simp [written]) fun room => ?_
      have two := one.emit room
        (base64Char (sextetLeft (input i.toNat) 4 ||| sextetRight (input (i.toNat + 1)) 4))
      refine .room two (length_emit room _) (by simp [written]) fun room => ?_
      have three := two.emit room
        (base64Char (sextetLeft (input (i.toNat + 1)) 2 ||| sextetRight (input (i.toNat + 2)) 6))
      refine .room three (length_emit room _) (by simp [written]) fun room => ?_
      exact .next (three.emit room _) (length_emit room _) (by simp [written])
    · simp only [if_neg three]
      rw [drop_bytes_over input (show ilen.toNat ≤ i.toNat + 1 + 1 by omega),
        drop_bytes_over input (show ilen.toNat ≤ i.toNat + 3 by omega)]
      refine .room holds short (List.prefix_append _ _) fun room => ?_
      have one := holds.emit room (base64Char (sextetRight (input i.toNat) 2))
      refine .room one (length_emit room _) (by simp [written]) fun room => ?_
      have two := one.emit room
        (base64Char (sextetLeft (input i.toNat) 4 ||| sextetRight (input (i.toNat + 1)) 4))
      refine .room two (length_emit room _) (by simp [written]) fun room => ?_
      have three := two.emit room (base64Char (sextetLeft (input (i.toNat + 1)) 2))
      refine .room three (length_emit room _) (by simp [written]) fun room => ?_
      exact .next (three.emit room _) (length_emit room _) (by simp [written])
  · simp only [if_neg two]
    rw [drop_bytes_over input (show ilen.toNat ≤ i.toNat + 1 by omega),
      drop_bytes_over input (show ilen.toNat ≤ i.toNat + 3 by omega)]
    refine .room holds short (List.prefix_append _ _) fun room => ?_
    have one := holds.emit room (base64Char (sextetRight (input i.toNat) 2))
    refine .room one (length_emit room _) (by simp [written]) fun room => ?_
    have two := one.emit room (base64Char (sextetLeft (input i.toNat) 4))
    refine .room two (length_emit room _) (by simp [written]) fun room => ?_
    have three := two.emit room 61
    refine .room three (length_emit room _) (by simp [written]) fun room => ?_
    exact .next (three.emit room _) (length_emit room _) (by simp [written])

theorem base64Encode_written (input : Mem) (ilen : UInt16) (output : Mem) (room : 0 < olen) :
    ∃ o, (base64Encode input ilen output olen).Returns (o, output.put
        ((written (input.bytes ilen.toNat)).take (olen.toNat - 1) ++ [0])) ∧
      o.toNat = min (written (input.bytes ilen.toNat)).length (olen.toNat - 1) := by
  have start : (⟨0, 0, output⟩ : Base64Loop).Holds output [] 0 := ⟨rfl, rfl, rfl⟩
  have fits (t t' : Base64Loop) (aligned : t.i.toNat % 3 = 0) (inside : t.i < ilen)
      (_ : encodeGroup input ilen olen t = .ok t') : t.i.toNat + 3 < 2 ^ 16 := by
    have before := UInt16.lt_iff_toNat_lt.mp inside
    have := ilen.toNat_lt
    omega
  obtain ⟨t, i, run, holds⟩ := base64_loop (fun i => written ((input.bytes ilen.toNat).drop i))
    (show 0 < (3 : UInt16).toNat by decide) fits
    (fun i past => by rw [drop_bytes_over input past, written])
    (fun t text i holds short inside => encodeGroup_reaches input holds short inside)
    start rfl (Nat.zero_le _)
  obtain ⟨count, cells⟩ := terminate_holds room holds
  refine ⟨(t.terminate olen).1, run.bind (returns_pure.mpr ?_), count⟩
  exact Prod.ext rfl cells.symm

/-! Where the sign of a byte does not show, the characters are those of the standard text. -/

theorem base64Char_letter (n : Nat) (small : n < 64) :
    base64Char (UInt8.ofNat n) = Base64.letter n := by
  have data : base64data = Base64.alphabet ++ [Base64.pad] := by decide
  have size : n < Base64.alphabet.length := Base64.length_alphabet ▸ small
  have value : (UInt8.ofNat n).toNat = n := UInt8.toNat_ofNat_of_lt' (Nat.lt_trans small (by decide))
  rw [base64Char, data, value, List.getD_eq_getElem?_getD, List.getElem?_append_left size,
    Base64.letter_eq n size, List.getElem?_eq_getElem size, Option.getD_some]

theorem sextet_bits (a : UInt8) :
    sextetRight a 0 = UInt8.ofNat (a.toNat % 64) ∧ sextetRight a 2 = UInt8.ofNat (a.toNat / 4) ∧
      sextetRight a 4 = UInt8.ofNat (a.toNat / 16 + if a < 128 then 0 else 48) ∧
      sextetRight a 6 = UInt8.ofNat (a.toNat / 64 + if a < 128 then 0 else 60) ∧
      sextetLeft a 2 = UInt8.ofNat (a.toNat % 16 * 4) ∧
      sextetLeft a 4 = UInt8.ofNat (a.toNat % 4 * 16) := by
  have table : ∀ n < 256, let a := UInt8.ofNat n
      sextetRight a 0 = UInt8.ofNat (n % 64) ∧ sextetRight a 2 = UInt8.ofNat (n / 4) ∧
        sextetRight a 4 = UInt8.ofNat (n / 16 + if a < 128 then 0 else 48) ∧
        sextetRight a 6 = UInt8.ofNat (n / 64 + if a < 128 then 0 else 60) ∧
        sextetLeft a 2 = UInt8.ofNat (n % 16 * 4) ∧
        sextetLeft a 4 = UInt8.ofNat (n % 4 * 16) := by decide +kernel
  simpa using table a.toNat a.toNat_lt

theorem sextetRight_zero (c : UInt8) : sextetRight c 0 = UInt8.ofNat (c.toNat % 64) :=
  (sextet_bits c).1

theorem sextetRight_two (a : UInt8) : sextetRight a 2 = UInt8.ofNat (a.toNat / 4) :=
  (sextet_bits a).2.1

theorem sextetRight_four (b : UInt8) :
    sextetRight b 4 = UInt8.ofNat (b.toNat / 16 + if b < 128 then 0 else 48) :=
  (sextet_bits b).2.2.1

theorem sextetRight_six (c : UInt8) :
    sextetRight c 6 = UInt8.ofNat (c.toNat / 64 + if c < 128 then 0 else 60) :=
  (sextet_bits c).2.2.2.1

theorem sextetLeft_two (b : UInt8) : sextetLeft b 2 = UInt8.ofNat (b.toNat % 16 * 4) :=
  (sextet_bits b).2.2.2.2.1

theorem sextetLeft_four (a : UInt8) : sextetLeft a 4 = UInt8.ofNat (a.toNat % 4 * 16) :=
  (sextet_bits a).2.2.2.2.2

theorem firstChar (a : UInt8) : base64Char (sextetRight a 2) = Base64.letter (Base64.first a) := by
  rw [sextetRight_two]
  exact base64Char_letter _ (Base64.first_lt a)

theorem fourthChar (c : UInt8) : base64Char (sextetRight c 0) = Base64.letter (Base64.fourth c) := by
  rw [sextetRight_zero]
  exact base64Char_letter _ (Base64.fourth_lt c)

theorem sign_or :
    (∀ high < 4, ∀ low < 16, UInt8.ofNat (high * 16) |||
      UInt8.ofNat (low + if low < 8 then 0 else 48) =
        UInt8.ofNat (if low < 8 then high * 16 + low else 48 + low)) ∧
    (∀ high < 16, ∀ low < 4, UInt8.ofNat (high * 4) |||
      UInt8.ofNat (low + if low < 2 then 0 else 60) =
        UInt8.ofNat (if low < 2 then high * 4 + low else 60 + low)) := by
  decide

theorem secondChar_iff (a b : UInt8) :
    base64Char (sextetLeft a 4 ||| sextetRight b 4) = Base64.letter (Base64.second a b) ↔
      b < 128 ∨ a.toNat % 4 = 3 := by
  have sign : b < 128 ↔ b.toNat / 16 < 8 := by
    rw [UInt8.lt_iff_toNat_lt, show (128 : UInt8).toNat = 128 from rfl]
    omega
  have small := b.toNat_lt
  rw [sextetLeft_four, sextetRight_four]
  simp only [sign]
  rw [sign_or.1 _ (Nat.mod_lt _ (by decide)) _ (by omega), base64Char_letter _ (by split <;> omega),
    Base64.letter_inj (by split <;> omega) (Base64.second_lt a b), Base64.second]
  split <;> omega

theorem secondChar_end (a : UInt8) :
    base64Char (sextetLeft a 4) = Base64.letter (Base64.second a 0) := by
  rw [sextetLeft_four]
  exact base64Char_letter _ (Base64.second_lt a 0)

theorem thirdChar_iff (b c : UInt8) :
    base64Char (sextetLeft b 2 ||| sextetRight c 6) = Base64.letter (Base64.third b c) ↔
      c < 128 ∨ b.toNat % 16 = 15 := by
  have sign : c < 128 ↔ c.toNat / 64 < 2 := by
    rw [UInt8.lt_iff_toNat_lt, show (128 : UInt8).toNat = 128 from rfl]
    omega
  have small := c.toNat_lt
  rw [sextetLeft_two, sextetRight_six]
  simp only [sign]
  rw [sign_or.2 _ (Nat.mod_lt _ (by decide)) _ (by omega), base64Char_letter _ (by split <;> omega),
    Base64.letter_inj (by split <;> omega) (Base64.third_lt b c), Base64.third]
  split <;> omega

theorem thirdChar_end (b : UInt8) :
    base64Char (sextetLeft b 2) = Base64.letter (Base64.third b 0) := by
  rw [sextetLeft_two]
  exact base64Char_letter _ (Base64.third_lt b 0)

/-- No sign shows in the first `room` characters: the second and third bytes of each group are
below 128, or the bits next to them are ones anyway. -/
def SignFree : Nat → List UInt8 → Prop
  | room, [a, b] => 1 < room → b < 128 ∨ a.toNat % 4 = 3
  | room, a :: b :: c :: bytes =>
      (1 < room → b < 128 ∨ a.toNat % 4 = 3) ∧ (2 < room → c < 128 ∨ b.toNat % 16 = 15) ∧
        SignFree (room - 4) bytes
  | _, _ => True

theorem signFree_zero (bytes : List UInt8) : SignFree 0 bytes := by
  fun_induction written bytes with
  | case1 => trivial
  | case2 a => trivial
  | case3 a b => exact fun room => absurd room (by decide)
  | case4 a b c bytes ih => exact ⟨fun room => absurd room (by decide),
      fun room => absurd room (by decide), ih⟩

theorem written_take_iff (bytes : List UInt8) (room : Nat) :
    (written bytes).take room = (Base64.encode bytes).take room ↔ SignFree room bytes := by
  fun_induction written bytes generalizing room with
  | case1 => simp [Base64.encode, SignFree]
  | case2 a => simp [Base64.encode, SignFree, firstChar, secondChar_end, Base64.pad]
  | case3 a b =>
      rw [Base64.encode, SignFree, firstChar, thirdChar_end, ← secondChar_iff]
      match room with
      | 0 => simp
      | 1 => simp
      | room + 2 => simp [Base64.pad]
  | case4 a b c bytes ih =>
      rw [Base64.encode, SignFree, firstChar, fourthChar, ← secondChar_iff, ← thirdChar_iff]
      match room with
      | 0 => simp [signFree_zero]
      | 1 => simp [signFree_zero]
      | 2 => simp [signFree_zero]
      | 3 => simp [signFree_zero]
      | room + 4 => simp [ih]

theorem length_written (bytes : List UInt8) :
    (written bytes).length = (Base64.encode bytes).length := by
  fun_induction written bytes with
  | case1 => rw [Base64.encode]
  | case2 a => simp only [Base64.encode, List.length_cons]
  | case3 a b => simp only [Base64.encode, List.length_cons]
  | case4 a b c bytes ih => simp only [Base64.encode, List.length_cons, ih]

/-- The output holds the standard text, as far as there is room, and its length is returned. -/
def EncodesStandard (input : Mem) (ilen : UInt16) (output : Mem) (olen : UInt16) : Prop :=
  ∃ o out, (base64Encode input ilen output olen).Returns (o, out) ∧
    o.toNat = min (4 * ((ilen.toNat + 2) / 3)) (olen.toNat - 1) ∧
    out.bytes (o.toNat + 1) =
      (Base64.encode (input.bytes ilen.toNat)).take (olen.toNat - 1) ++ [0]

theorem encodesStandard_iff_take (input : Mem) (ilen : UInt16) (output : Mem) (room : 0 < olen) :
    EncodesStandard input ilen output olen ↔
      (written (input.bytes ilen.toNat)).take (olen.toNat - 1) =
        (Base64.encode (input.bytes ilen.toNat)).take (olen.toNat - 1) := by
  obtain ⟨o, run, count⟩ := base64Encode_written input ilen output room
  have size : o.toNat + 1 = ((written (input.bytes ilen.toNat)).take (olen.toNat - 1) ++ [0]).length := by
    rw [List.length_append, List.length_take, count, Nat.min_comm]
    rfl
  have number : o.toNat = min (4 * ((ilen.toNat + 2) / 3)) (olen.toNat - 1) := by
    rw [count, length_written, Base64.length_encode, Mem.length_bytes]
  constructor
  · rintro ⟨o', out, run', -, cells⟩
    obtain ⟨rfl, rfl⟩ := Prod.mk.inj (run.unique run')
    rw [size, Mem.bytes_put] at cells
    exact List.append_cancel_right cells
  · intro same
    refine ⟨o, _, run, number, ?_⟩
    rw [size, Mem.bytes_put, same]

theorem base64Encode_standard_iff (input : Mem) (ilen : UInt16) (output : Mem) (olen : UInt16)
    (room : 0 < olen) :
    EncodesStandard input ilen output olen ↔ SignFree (olen.toNat - 1) (input.bytes ilen.toNat) :=
  (encodesStandard_iff_take input ilen output room).trans (written_take_iff _ _)

theorem base64Encode_standard_input :
    EncodesStandard (.ofBytes (ascii "input:string1")) 13 (fun _ => 0) 64 ↔
      SignFree 63 (ascii "input:string1") :=
  base64Encode_standard_iff (.ofBytes (ascii "input:string1")) 13 (fun _ => 0) 64 (by decide)

theorem base64Encode_signed : ¬ EncodesStandard (.ofBytes [0, 128]) 2 (fun _ => 0) 64 := by
  rw [encodesStandard_iff_take _ _ _ (by decide)]
  decide

/-! ## Decoding -/

def groupBytes (c₀ c₁ c₂ c₃ : Int8) (more : List UInt8) : List UInt8 :=
  if c₁ < 64 then
    joinSextets c₀ c₁ 2 4 0xFC 0x03 ::
      if c₂ < 64 then
        joinSextets c₁ c₂ 4 2 0xF0 0x0F ::
          if c₃ < 64 then joinSextets c₂ c₃ 6 0 0xC0 0x3F :: more else []
      else []
  else []

def decoded : List UInt8 → List UInt8
  | c₀ :: c₁ :: c₂ :: c₃ :: text =>
      groupBytes (base64DecodeChar c₀) (base64DecodeChar c₁) (base64DecodeChar c₂)
        (base64DecodeChar c₃) (decoded text)
  | [c₀, c₁, c₂] =>
      groupBytes (base64DecodeChar c₀) (base64DecodeChar c₁) (base64DecodeChar c₂) 65 []
  | [c₀, c₁] => groupBytes (base64DecodeChar c₀) (base64DecodeChar c₁) 65 65 []
  | [c₀] => groupBytes (base64DecodeChar c₀) 65 65 65 []
  | [] => []

theorem Reaches.stop (holds : t.Holds m text i) (short : text.length ≤ olen.toNat)
    (split : text = final) : Reaches m olen i rest final (.error t) :=
  .last (by rwa [← split, List.take_of_length_le short])

theorem decodeGroup_bytes (input : Mem) {ilen : UInt16} (holds : t.Holds m text i)
    (short : text.length ≤ olen.toNat) {c₀ c₁ c₂ c₃ : Int8}
    (zeroth : base64DecodeChar (input i.toNat) = c₀)
    (first : (if i.toNat + 1 < ilen.toNat then base64DecodeChar (input (i.toNat + 1)) else 65) = c₁)
    (second : (if i.toNat + 2 < ilen.toNat then base64DecodeChar (input (i.toNat + 2)) else 65) = c₂)
    (third : (if i.toNat + 3 < ilen.toNat then base64DecodeChar (input (i.toNat + 3)) else 65) = c₃) :
    Reaches m olen i rest (text ++ groupBytes c₀ c₁ c₂ c₃ rest) (decodeGroup input ilen olen t) := by
  unfold decodeGroup
  simp only [holds.i, Nat.add_zero, true_or, if_true, one_ne_zero, false_or, zeroth, first, second,
    third, OfNat.ofNat_ne_zero, groupBytes]
  refine .room holds short (List.prefix_append _ _) fun room => ?_
  split
  · have one := holds.emit room (joinSextets c₀ c₁ 2 4 0xFC 0x03)
    refine .room one (length_emit room _) (by simp) fun room => ?_
    split
    · have two := one.emit room (joinSextets c₁ c₂ 4 2 0xF0 0x0F)
      refine .room two (length_emit room _) (by simp) fun room => ?_
      split
      · have three := two.emit room (joinSextets c₂ c₃ 6 0 0xC0 0x3F)
        have last := Reaches.room (f := pure) three (length_emit room _) (List.prefix_append _ rest)
          fun room => .next three room.le rfl
        simpa using last
      · exact .stop two (length_emit ‹_› _) (by simp)
    · exact .stop one (length_emit ‹_› _) (by simp)
  · exact .stop holds short (by simp)

theorem decodeGroup_reaches (input : Mem) {ilen : UInt16} (holds : t.Holds m text i)
    (short : text.length ≤ olen.toNat) (inside : i < ilen) :
    Reaches m olen i (decoded ((input.bytes ilen.toNat).drop (i.toNat + 4)))
      (text ++ decoded ((input.bytes ilen.toNat).drop i.toNat)) (decodeGroup input ilen olen t) := by
  rw [drop_bytes input (UInt16.lt_iff_toNat_lt.mp inside)]
  by_cases two : i.toNat + 1 < ilen.toNat
  · rw [drop_bytes input two]
    by_cases three : i.toNat + 2 < ilen.toNat
    · rw [drop_bytes input three]
      by_cases four : i.toNat + 3 < ilen.toNat
      · rw [drop_bytes input four]
        exact decodeGroup_bytes input holds short rfl (if_pos two) (if_pos three) (if_pos four)
      · rw [drop_bytes_over input (show ilen.toNat ≤ i.toNat + 3 by omega),
          drop_bytes_over input (show ilen.toNat ≤ i.toNat + 4 by omega)]
        exact decodeGroup_bytes input holds short rfl (if_pos two) (if_pos three) (if_neg four)
    · rw [drop_bytes_over input (show ilen.toNat ≤ i.toNat + 1 + 1 by omega),
        drop_bytes_over input (show ilen.toNat ≤ i.toNat + 4 by omega)]
      exact decodeGroup_bytes input holds short rfl (if_pos two) (if_neg three)
        (if_neg fun four => three (by omega))
  · rw [drop_bytes_over input (show ilen.toNat ≤ i.toNat + 1 by omega),
      drop_bytes_over input (show ilen.toNat ≤ i.toNat + 4 by omega)]
    exact decodeGroup_bytes input holds short rfl (if_neg two)
      (if_neg fun three => two (by omega)) (if_neg fun four => two (by omega))

/-- Only a whole group lets the loop go on, so that the index never wraps. -/
theorem decodeGroup_ok {input : Mem} {ilen : UInt16} {t t' : Base64Loop}
    (h : decodeGroup input ilen olen t = .ok t') : t.i.toNat + 3 < ilen.toNat := by
  by_contra short
  have missing : ¬ (65 : Int8) < 64 := by decide
  simp only [decodeGroup, OfNat.ofNat_ne_zero, one_ne_zero, false_or, if_neg short,
    if_neg missing] at h
  generalize (if t.i.toNat + 1 < ilen.toNat then base64DecodeChar (input (t.i.toNat + 1)) else 65) =
    c₁ at h
  generalize (if t.i.toNat + 2 < ilen.toNat then base64DecodeChar (input (t.i.toNat + 2)) else 65) =
    c₂ at h
  have stays {f : Base64Loop → Except Base64Loop Base64Loop} (never : ∀ u, f u ≠ .ok t')
      (u : Base64Loop) : (u.room olen >>= f) ≠ .ok t' := by
    unfold Base64Loop.room
    split
    · exact fun equal => nomatch equal
    · exact never u
  refine stays (fun u => ?_) t h
  split
  · refine stays (fun u => ?_) _
    split
    · exact stays (f := fun u => .error u) (fun u equal => nomatch equal) _
    · exact fun equal => nomatch equal
  · exact fun equal => nomatch equal

theorem base64Decode_decoded (input : Mem) (ilen : UInt16) (output : Mem) (room : 0 < olen) :
    ∃ o, (base64Decode input ilen output olen).Returns (o, output.put
        ((decoded (input.bytes ilen.toNat)).take (olen.toNat - 1) ++ [0])) ∧
      o.toNat = min (decoded (input.bytes ilen.toNat)).length (olen.toNat - 1) := by
  have start : (⟨0, 0, output⟩ : Base64Loop).Holds output [] 0 := ⟨rfl, rfl, rfl⟩
  have fits (t t' : Base64Loop) (_ : t.i.toNat % 4 = 0) (_ : t.i < ilen)
      (whole : decodeGroup input ilen olen t = .ok t') : t.i.toNat + 4 < 2 ^ 16 := by
    have inside := decodeGroup_ok whole
    have := ilen.toNat_lt
    omega
  obtain ⟨t, i, run, holds⟩ := base64_loop (fun i => decoded ((input.bytes ilen.toNat).drop i))
    (show 0 < (4 : UInt16).toNat by decide) fits
    (fun i past => by rw [drop_bytes_over input past, decoded])
    (fun t text i holds short inside => decodeGroup_reaches input holds short inside)
    start rfl (Nat.zero_le _)
  obtain ⟨count, cells⟩ := terminate_holds room holds
  refine ⟨(t.terminate olen).1, run.bind (returns_pure.mpr ?_), count⟩
  exact Prod.ext rfl cells.symm

/-! The text of some bytes, with any of its padding left off, decodes to the bytes. -/

theorem decodeChar_letter : ∀ n < 64, base64DecodeChar (Base64.letter n) = (UInt8.ofNat n).toInt8 := by
  decide +kernel

theorem sextet_lt : ∀ n < 64, (UInt8.ofNat n).toInt8 < 64 := by
  decide

/-! A byte is made of the low bits of one sextet and the high bits of the next. -/

theorem shifted_sextet : ∀ n < 64, let x := (UInt8.ofNat n).toInt8.toInt32
    (x <<< 2) &&& 0xFC = Int32.ofNat (n * 4) ∧ (x >>> 4) &&& 0x03 = Int32.ofNat (n / 16) ∧
      (x <<< 4) &&& 0xF0 = Int32.ofNat (n % 16 * 16) ∧ (x >>> 2) &&& 0x0F = Int32.ofNat (n / 4) ∧
      (x <<< 6) &&& 0xC0 = Int32.ofNat (n % 4 * 64) ∧ (x >>> 0) &&& 0x3F = Int32.ofNat n := by
  decide +kernel

theorem joined_bits :
    (∀ m < 64, ∀ n < 4, (Int32.ofNat (m * 4) ||| Int32.ofNat n).toUInt32.toUInt8 =
      UInt8.ofNat (m * 4 + n)) ∧
    (∀ m < 16, ∀ n < 16, (Int32.ofNat (m * 16) ||| Int32.ofNat n).toUInt32.toUInt8 =
      UInt8.ofNat (m * 16 + n)) ∧
    (∀ m < 4, ∀ n < 64, (Int32.ofNat (m * 64) ||| Int32.ofNat n).toUInt32.toUInt8 =
      UInt8.ofNat (m * 64 + n)) := by
  decide +kernel

theorem joinSextets_first (high : Nat) (small : high < 64) (low : Nat) (small' : low < 64) :
    joinSextets (UInt8.ofNat high).toInt8 (UInt8.ofNat low).toInt8 2 4 0xFC 0x03 =
      UInt8.ofNat (high * 4 + low / 16) := by
  obtain ⟨left, -⟩ := shifted_sextet high small
  obtain ⟨-, right, -⟩ := shifted_sextet low small'
  rw [joinSextets, left, right]
  exact joined_bits.1 high small _ (by omega)

theorem joinSextets_second (high : Nat) (small : high < 64) (low : Nat) (small' : low < 64) :
    joinSextets (UInt8.ofNat high).toInt8 (UInt8.ofNat low).toInt8 4 2 0xF0 0x0F =
      UInt8.ofNat (high % 16 * 16 + low / 4) := by
  obtain ⟨-, -, left, -⟩ := shifted_sextet high small
  obtain ⟨-, -, -, right, -⟩ := shifted_sextet low small'
  rw [joinSextets, left, right]
  exact joined_bits.2.1 _ (Nat.mod_lt _ (by decide)) _ (by omega)

theorem joinSextets_third (high : Nat) (small : high < 64) (low : Nat) (small' : low < 64) :
    joinSextets (UInt8.ofNat high).toInt8 (UInt8.ofNat low).toInt8 6 0 0xC0 0x3F =
      UInt8.ofNat (high % 4 * 64 + low) := by
  obtain ⟨-, -, -, -, left, -⟩ := shifted_sextet high small
  obtain ⟨-, -, -, -, -, right⟩ := shifted_sextet low small'
  rw [joinSextets, left, right]
  exact joined_bits.2.2 _ (Nat.mod_lt _ (by decide)) _ small'

theorem joinSextets_bytes (a b c : UInt8) :
    joinSextets (UInt8.ofNat (Base64.first a)).toInt8 (UInt8.ofNat (Base64.second a b)).toInt8
        2 4 0xFC 0x03 = a ∧
      joinSextets (UInt8.ofNat (Base64.second a b)).toInt8 (UInt8.ofNat (Base64.third b c)).toInt8
        4 2 0xF0 0x0F = b ∧
      joinSextets (UInt8.ofNat (Base64.third b c)).toInt8 (UInt8.ofNat (Base64.fourth c)).toInt8
        6 0 0xC0 0x3F = c := by
  have small := a.toNat_lt
  have small' := b.toNat_lt
  have small'' := c.toNat_lt
  rw [joinSextets_first _ (Base64.first_lt a) _ (Base64.second_lt a b),
    joinSextets_second _ (Base64.second_lt a b) _ (Base64.third_lt b c),
    joinSextets_third _ (Base64.third_lt b c) _ (Base64.fourth_lt c)]
  refine ⟨?_, ?_, ?_⟩
  · rw [show Base64.first a * 4 + Base64.second a b / 16 = a.toNat by
      unfold Base64.first Base64.second; omega]
    exact UInt8.ofNat_toNat
  · rw [show Base64.second a b % 16 * 16 + Base64.third b c / 4 = b.toNat by
      unfold Base64.second Base64.third; omega]
    exact UInt8.ofNat_toNat
  · rw [show Base64.third b c % 4 * 64 + Base64.fourth c = c.toNat by
      unfold Base64.third Base64.fourth; omega]
    exact UInt8.ofNat_toNat

theorem peel_letter {n k : Nat} {text rest : List UInt8} (small : n < 64)
    (h : Base64.letter n :: rest = text ++ List.replicate k Base64.pad) :
    ∃ text', text = Base64.letter n :: text' ∧ rest = text' ++ List.replicate k Base64.pad := by
  cases text with
  | nil =>
      cases k with
      | zero => simp at h
      | succ k =>
          rw [List.nil_append, List.replicate_succ] at h
          exact absurd (List.cons.inj h).1 (Base64.letter_ne_pad n small)
  | cons c text =>
      obtain ⟨rfl, split⟩ := List.cons.inj h
      exact ⟨text, rfl, split⟩

theorem eq_replicate_of_append {k n : Nat} {text : List UInt8}
    (h : List.replicate n Base64.pad = text ++ List.replicate k Base64.pad) :
    ∃ j, text = List.replicate j Base64.pad ∧ j ≤ n := by
  refine ⟨text.length, List.eq_replicate_iff.mpr ⟨rfl, fun b member => ?_⟩, ?_⟩
  · exact List.eq_of_mem_replicate (h ▸ List.mem_append_left _ member)
  · have lengths := congrArg List.length h
    simp only [List.length_append, List.length_replicate] at lengths
    omega

theorem groupBytes_one {a : UInt8} {c₂ : Int8} (missing : ¬ c₂ < 64) (c₃ : Int8)
    (more : List UInt8) :
    groupBytes (base64DecodeChar (Base64.letter (Base64.first a)))
      (base64DecodeChar (Base64.letter (Base64.second a 0))) c₂ c₃ more = [a] := by
  rw [groupBytes, decodeChar_letter _ (Base64.first_lt a),
    decodeChar_letter _ (Base64.second_lt a 0), if_pos (sextet_lt _ (Base64.second_lt a 0)),
    if_neg missing, (joinSextets_bytes a 0 0).1]

theorem groupBytes_two {a b : UInt8} {c₃ : Int8} (missing : ¬ c₃ < 64) (more : List UInt8) :
    groupBytes (base64DecodeChar (Base64.letter (Base64.first a)))
      (base64DecodeChar (Base64.letter (Base64.second a b)))
      (base64DecodeChar (Base64.letter (Base64.third b 0))) c₃ more = [a, b] := by
  obtain ⟨one, two, -⟩ := joinSextets_bytes a b 0
  rw [groupBytes, decodeChar_letter _ (Base64.first_lt a),
    decodeChar_letter _ (Base64.second_lt a b), decodeChar_letter _ (Base64.third_lt b 0),
    if_pos (sextet_lt _ (Base64.second_lt a b)), if_pos (sextet_lt _ (Base64.third_lt b 0)),
    if_neg missing, one, two]

theorem groupBytes_three (a b c : UInt8) (more : List UInt8) :
    groupBytes (base64DecodeChar (Base64.letter (Base64.first a)))
      (base64DecodeChar (Base64.letter (Base64.second a b)))
      (base64DecodeChar (Base64.letter (Base64.third b c)))
      (base64DecodeChar (Base64.letter (Base64.fourth c))) more = a :: b :: c :: more := by
  obtain ⟨one, two, three⟩ := joinSextets_bytes a b c
  rw [groupBytes, decodeChar_letter _ (Base64.first_lt a),
    decodeChar_letter _ (Base64.second_lt a b), decodeChar_letter _ (Base64.third_lt b c),
    decodeChar_letter _ (Base64.fourth_lt c), if_pos (sextet_lt _ (Base64.second_lt a b)),
    if_pos (sextet_lt _ (Base64.third_lt b c)), if_pos (sextet_lt _ (Base64.fourth_lt c)), one, two,
    three]

theorem decoded_encode (bytes : List UInt8) {text : List UInt8} {k : Nat}
    (h : Base64.encode bytes = text ++ List.replicate k Base64.pad) : decoded text = bytes := by
  have pad : ¬ base64DecodeChar Base64.pad < 64 := by decide
  fun_induction Base64.encode bytes generalizing text with
  | case1 =>
      cases text with
      | nil => rfl
      | cons c text => cases h
  | case2 a =>
      obtain ⟨text₁, rfl, h₁⟩ := peel_letter (Base64.first_lt a) h
      obtain ⟨text₂, rfl, h₂⟩ := peel_letter (Base64.second_lt a 0) h₁
      obtain ⟨j, rfl, two⟩ := eq_replicate_of_append (n := 2) h₂
      rcases j with _ | _ | j
      · exact groupBytes_one (by decide) 65 []
      · exact groupBytes_one pad 65 []
      · exact groupBytes_one pad _ _
  | case3 a b =>
      obtain ⟨text₁, rfl, h₁⟩ := peel_letter (Base64.first_lt a) h
      obtain ⟨text₂, rfl, h₂⟩ := peel_letter (Base64.second_lt a b) h₁
      obtain ⟨text₃, rfl, h₃⟩ := peel_letter (Base64.third_lt b 0) h₂
      obtain ⟨j, rfl, one⟩ := eq_replicate_of_append (n := 1) h₃
      rcases j with _ | j
      · exact groupBytes_two (by decide) []
      · exact groupBytes_two pad _
  | case4 a b c bytes ih =>
      obtain ⟨text₁, rfl, h₁⟩ := peel_letter (Base64.first_lt a) h
      obtain ⟨text₂, rfl, h₂⟩ := peel_letter (Base64.second_lt a b) h₁
      obtain ⟨text₃, rfl, h₃⟩ := peel_letter (Base64.third_lt b c) h₂
      obtain ⟨text₄, rfl, h₄⟩ := peel_letter (Base64.fourth_lt c) h₃
      rw [decoded, groupBytes_three, ih h₄]

/-- The input is the padded text of some bytes or what is left of it without some of the padding. -/
theorem base64Decode_encode (bytes text : List UInt8) {k : Nat}
    (h : Base64.encode bytes = text ++ List.replicate k Base64.pad)
    (input : Mem) (ilen : UInt16) (given : input.bytes ilen.toNat = text) (output : Mem)
    (olen : UInt16) (room : 0 < olen) :
    ∃ o out, (base64Decode input ilen output olen).Returns (o, out) ∧
      o.toNat = min bytes.length (olen.toNat - 1) ∧
      out.bytes (o.toNat + 1) = bytes.take (olen.toNat - 1) ++ [0] := by
  obtain ⟨o, run, count⟩ := base64Decode_decoded input ilen output room
  rw [given, decoded_encode bytes h] at run count
  refine ⟨o, _, run, count, ?_⟩
  have size : o.toNat + 1 = (bytes.take (olen.toNat - 1) ++ [0]).length := by
    rw [List.length_append, List.length_take, count, Nat.min_comm]
    rfl
  rw [size, Mem.bytes_put]

theorem base64Decode_encode_unpadded :
    ∃ o out, (base64Decode (.ofBytes (ascii "/wA")) 3 (fun _ => 0) 64).Returns (o, out) ∧
      o.toNat = min 2 63 ∧ out.bytes (o.toNat + 1) = [255, 0] ++ [0] :=
  base64Decode_encode [255, 0] (ascii "/wA") (k := 1) (by decide)
    (.ofBytes (ascii "/wA")) 3 (by decide) (fun _ => 0) 64 (by decide)

end AttoHTTP
