import AttoHTTP.Proof.Entry

namespace AttoHTTP
open Library Comp

/-- Successive calls of `attoHTTPGetRawParamChar` return 1 with these bytes. -/
inductive RawCalls : State → List UInt8 → State → Prop
  | nil (s : State) : RawCalls s [] s
  | cons {s s' t : State} {b : UInt8} {bytes : List UInt8}
      (call : ∀ c, getRawParamChar c s = ((1, b), s')) (rest : RawCalls s' bytes t) :
      RawCalls s (b :: bytes) t

theorem getRawParamChar_byte {s : State} {b : UInt8} {rest : List GetByte}
    (pending : s.reader.pending = .byte b :: rest) :
    ∃ s', (∀ c, getRawParamChar c s = ((1, b), s')) ∧ s'.reader.pending = rest := by
  refine ⟨{ s with reader := (readC 0 s.reader).reader }, fun c => ?_, ?_⟩
  · obtain ⟨ret, stored⟩ := readC_byte (c := c) pending
    rw [getRawParamChar, ret, stored, readC_reader c 0]
    rfl
  · change (readC 0 s.reader).reader.pending = rest
    rw [readC_pending, pending, List.tail_cons]

theorem rawCalls_pending {s : State} {bytes : List UInt8} {rest : List GetByte}
    (pending : s.reader.pending = sends bytes ++ rest) :
    ∃ t, RawCalls s bytes t ∧ t.reader.pending = rest := by
  induction bytes generalizing s with
  | nil => exact ⟨s, .nil s, pending⟩
  | cons b bytes ih =>
      obtain ⟨s', call, left⟩ := getRawParamChar_byte pending
      obtain ⟨t, calls, last⟩ := ih left
      exact ⟨t, .cons call calls, last⟩

theorem RawCalls.delivered {s t : State} {bytes text : List UInt8} (h : RawCalls s bytes t)
    (pending : s.reader.pending = sends text) (few : bytes.length ≤ text.length) :
    bytes <+: text := by
  induction h generalizing text with
  | nil s => exact List.nil_prefix
  | cons call rest ih =>
      cases text with
      | nil => exact absurd few (by simp)
      | cons b text =>
          have first : _ = .byte b :: sends text := pending
          obtain ⟨s', call', left⟩ := getRawParamChar_byte first
          have same := (call 0).symm.trans (call' 0)
          simp only [Prod.mk.injEq, true_and] at same
          obtain ⟨rfl, rfl⟩ := same
          exact (List.prefix_cons_inj _).mpr (ih left (by simpa using few))

theorem newlines_iff (text : List UInt8) : text <+: 10 :: text ↔ ∀ b ∈ text, b = 10 := by
  induction text with
  | nil => simp
  | cons b text ih =>
      rw [List.cons_prefix_cons, List.forall_mem_cons, and_congr_right_iff]
      rintro rfl
      exact ih

variable {cfg : Config} {conn : Connection} {s t : State} {callback : Callback} {args : CallbackArgs}

/-- The calls deliver a line end and then the body, so they deliver the body if it is line ends. -/
theorem rawBody_iff {text : RequestText} {body : List UInt8} (reachable : Reachable cfg s)
    (input : conn.input = sends text.render ++ sends body)
    (entry : CallsBack cfg conn s callback args t) :
    (∃ u, RawCalls t body u) ↔ ∀ b ∈ body, b = 10 := by
  have pending : t.reader.pending = sends (10 :: body) :=
    (entry.entered reachable text input).pending
  rw [← newlines_iff]
  constructor
  · rintro ⟨u, calls⟩
    exact calls.delivered pending (Nat.le_succ _)
  · rintro ⟨rest, whole⟩
    rw [← whole, sends_append] at pending
    obtain ⟨u, calls, -⟩ := rawCalls_pending pending
    exact ⟨u, calls⟩

theorem rawBody_lines : ∃ callback args t u,
    CallsBack (.default .none) (.ofBytes (formRequest.render ++ [10, 10])) restServer callback args t ∧
    RawCalls t [10, 10] u := by
  obtain ⟨callback, args, t, entry⟩ := restServer_calls formRequest [10, 10] (by simp)
  have input : (Connection.ofBytes (formRequest.render ++ [10, 10])).input =
      sends formRequest.render ++ sends [10, 10] := List.map_append ..
  obtain ⟨u, calls⟩ := (rawBody_iff (reachable_setUp _ _) input entry).mpr (by decide)
  exact ⟨callback, args, t, u, entry, calls⟩

theorem rawBody_late : ∃ callback args t u,
    CallsBack (.default .none) (.ofBytes (formRequest.render ++ ascii "A")) restServer callback args
      t ∧
    RawCalls t [10] u ∧ ∀ u', ¬ RawCalls t (ascii "A") u' := by
  obtain ⟨callback, args, t, entry⟩ := restServer_calls formRequest (ascii "A") (by simp)
  have pending : t.reader.pending = sends (10 :: ascii "A") :=
    (entry.entered (reachable_setUp _ _) formRequest (List.map_append ..)).pending
  obtain ⟨u, calls, -⟩ := rawCalls_pending (show t.reader.pending = sends [10] ++ _ from pending)
  refine ⟨callback, args, t, u, entry, calls, fun u' other => ?_⟩
  exact absurd (other.delivered pending (by decide)) (by decide)

end AttoHTTP
