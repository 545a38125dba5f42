import AttoHTTP.Proof.Base64

namespace AttoHTTP
open Library Comp

/-! ## Texts that stop being letters -/

theorem sextet_letter (c : UInt8) (letter : c ∈ Base64.alphabet) :
    Base64.sextet c < 64 ∧ base64DecodeChar c = (UInt8.ofNat (Base64.sextet c)).toInt8 := by
  have small : Base64.sextet c < Base64.alphabet.length := List.idxOf_lt_length_of_mem letter
  have back : Base64.letter (Base64.sextet c) = c := by
    rw [Base64.letter_eq _ small]
    exact List.getElem_idxOf small
  rw [Base64.length_alphabet] at small
  exact ⟨small, by rw [← decodeChar_letter _ small, back]⟩

theorem decodeChar_lt_iff (c : UInt8) : base64DecodeChar c < 64 ↔ c ∈ Base64.alphabet := by
  constructor
  · intro below
    have table : ∀ n < 256, base64DecodeChar (UInt8.ofNat n) < 64 →
        UInt8.ofNat n = Base64.letter (base64DecodeChar (UInt8.ofNat n)).toNatClampNeg ∧
          (base64DecodeChar (UInt8.ofNat n)).toNatClampNeg < 64 := by decide +kernel
    obtain ⟨same, small⟩ := table c.toNat c.toNat_lt (by simpa using below)
    rw [UInt8.ofNat_toNat] at same small
    rw [same]
    exact Base64.letter_mem _ small
  · intro letter
    obtain ⟨small, char⟩ := sextet_letter c letter
    rw [char]
    exact sextet_lt _ small

/-- The first character that is no letter begins a group, and a letter follows it: the decoder does
not look at the first character of a group. -/
def misread (text : List UInt8) : Bool :=
  match text.dropWhile (· ∈ Base64.alphabet) with
  | _ :: c :: _ => (Base64.letters text).length % 4 == 0 && c ∈ Base64.alphabet
  | _ => false

theorem letters_cons {c : UInt8} (letter : c ∈ Base64.alphabet) (text : List UInt8) :
    Base64.letters (c :: text) = c :: Base64.letters text := by
  simp [Base64.letters, letter]

theorem letters_other {c : UInt8} (other : c ∉ Base64.alphabet) (text : List UInt8) :
    Base64.letters (c :: text) = [] := by
  simp [Base64.letters, other]

theorem misread_inside {text : List UInt8} (inside : (Base64.letters text).length % 4 ≠ 0) :
    misread text = false := by
  unfold misread
  split
  · simp [inside]
  · rfl

theorem misread_group {c₀ c₁ c₂ c₃ : UInt8} (zeroth : c₀ ∈ Base64.alphabet)
    (first : c₁ ∈ Base64.alphabet) (second : c₂ ∈ Base64.alphabet) (third : c₃ ∈ Base64.alphabet)
    (text : List UInt8) : misread (c₀ :: c₁ :: c₂ :: c₃ :: text) = misread text := by
  have period (n : Nat) : (n + 1 + 1 + 1 + 1) % 4 = n % 4 := by omega
  simp [misread, letters_cons, zeroth, first, second, third, period]

theorem joinSextets_letters {a b : UInt8} (high : a ∈ Base64.alphabet) (low : b ∈ Base64.alphabet) :
    joinSextets (base64DecodeChar a) (base64DecodeChar b) 2 4 0xFC 0x03 =
        UInt8.ofNat (Base64.sextet a * 4 + Base64.sextet b / 16) ∧
      joinSextets (base64DecodeChar a) (base64DecodeChar b) 4 2 0xF0 0x0F =
        UInt8.ofNat (Base64.sextet a % 16 * 16 + Base64.sextet b / 4) ∧
      joinSextets (base64DecodeChar a) (base64DecodeChar b) 6 0 0xC0 0x3F =
        UInt8.ofNat (Base64.sextet a % 4 * 64 + Base64.sextet b) := by
  obtain ⟨small, char⟩ := sextet_letter a high
  obtain ⟨small', char'⟩ := sextet_letter b low
  rw [char, char', joinSextets_first _ small _ small', joinSextets_second _ small _ small',
    joinSextets_third _ small _ small']
  exact ⟨rfl, rfl, rfl⟩

/-- What the decoder writes, against the bytes that the letters in front determine. -/
def Decodes (text : List UInt8) : Prop :=
  if misread text then ∃ b more, decoded text = Base64.decode text ++ b :: more
  else decoded text = Base64.decode text

theorem Decodes.of_inside {text : List UInt8} (inside : (Base64.letters text).length % 4 ≠ 0)
    (same : decoded text = Base64.decode text) : Decodes text := by
  unfold Decodes
  rw [misread_inside inside]
  exact same

theorem decoded_pair (a b : UInt8) (text : List UInt8) : ∃ c₂ c₃ more,
    decoded (a :: b :: text) = groupBytes (base64DecodeChar a) (base64DecodeChar b) c₂ c₃ more :=
  match text with
  | [] => ⟨_, _, _, rfl⟩
  | [_] => ⟨_, _, _, rfl⟩
  | _ :: _ :: _ => ⟨_, _, _, rfl⟩

theorem decoded_triple (a b c : UInt8) (text : List UInt8) : ∃ c₃ more,
    decoded (a :: b :: c :: text) =
      groupBytes (base64DecodeChar a) (base64DecodeChar b) (base64DecodeChar c) c₃ more :=
  match text with
  | [] => ⟨_, _, rfl⟩
  | _ :: _ => ⟨_, _, rfl⟩

theorem decodes_other {a : UInt8} (other : a ∉ Base64.alphabet) (text : List UInt8) :
    Decodes (a :: text) := by
  have none : Base64.decode (a :: text) = [] := by
    rw [Base64.decode, letters_other other]
    rfl
  unfold Decodes
  rw [none]
  cases text with
  | nil =>
      have alone : misread [a] = false := by simp [misread, other]
      rw [alone]
      rfl
  | cons b text =>
      have after : misread (a :: b :: text) = decide (b ∈ Base64.alphabet) := by
        simp [misread, other, letters_other other]
      obtain ⟨c₂, c₃, more, pair⟩ := decoded_pair a b text
      rw [after, pair, groupBytes]
      by_cases letter : b ∈ Base64.alphabet
      · rw [if_pos (by simpa using letter), if_pos ((decodeChar_lt_iff b).mpr letter)]
        exact ⟨_, _, rfl⟩
      · rw [if_neg (by simpa using letter), if_neg fun less => letter ((decodeChar_lt_iff b).mp less)]

theorem decodes_single {a b : UInt8} (letter : a ∈ Base64.alphabet) (other : b ∉ Base64.alphabet)
    (text : List UInt8) : Decodes (a :: b :: text) := by
  apply Decodes.of_inside
  · simp [letters_cons letter, letters_other other]
  · obtain ⟨c₂, c₃, more, pair⟩ := decoded_pair a b text
    rw [pair, groupBytes, if_neg fun less => other ((decodeChar_lt_iff b).mp less), Base64.decode,
      letters_cons letter, letters_other other]
    rfl

theorem decodes_double {a b c : UInt8} (first : a ∈ Base64.alphabet) (second : b ∈ Base64.alphabet)
    (other : c ∉ Base64.alphabet) (text : List UInt8) : Decodes (a :: b :: c :: text) := by
  apply Decodes.of_inside
  · simp [letters_cons first, letters_cons second, letters_other other]
  · obtain ⟨c₃, more, triple⟩ := decoded_triple a b c text
    rw [triple, groupBytes, if_pos ((decodeChar_lt_iff b).mpr second),
      if_neg fun less => other ((decodeChar_lt_iff c).mp less), (joinSextets_letters first second).1,
      Base64.decode, letters_cons first, letters_cons second, letters_other other]
    rfl

theorem groupBytes_triple {a b c : UInt8} (first : a ∈ Base64.alphabet) (second : b ∈ Base64.alphabet)
    (third : c ∈ Base64.alphabet) {c₃ : Int8} (missing : ¬ c₃ < 64) (more : List UInt8) :
    groupBytes (base64DecodeChar a) (base64DecodeChar b) (base64DecodeChar c) c₃ more =
      Base64.join ([a, b, c].map Base64.sextet) := by
  rw [groupBytes, if_pos ((decodeChar_lt_iff b).mpr second),
    if_pos ((decodeChar_lt_iff c).mpr third), if_neg missing, (joinSextets_letters first second).1,
    (joinSextets_letters second third).2.1]
  rfl

theorem decodes (text : List UInt8) : Decodes text := by
  have missing : ¬ (65 : Int8) < 64 := by decide
  fun_induction decoded text with
  | case1 c₀ c₁ c₂ c₃ text ih =>
      by_cases zeroth : c₀ ∈ Base64.alphabet
      · by_cases first : c₁ ∈ Base64.alphabet
        · by_cases second : c₂ ∈ Base64.alphabet
          · by_cases third : c₃ ∈ Base64.alphabet
            · have same : decoded (c₀ :: c₁ :: c₂ :: c₃ :: text) =
                  Base64.join ([c₀, c₁, c₂, c₃].map Base64.sextet) ++ decoded text := by
                rw [decoded, groupBytes, if_pos ((decodeChar_lt_iff c₁).mpr first),
                  if_pos ((decodeChar_lt_iff c₂).mpr second),
                  if_pos ((decodeChar_lt_iff c₃).mpr third), (joinSextets_letters zeroth first).1,
                  (joinSextets_letters first second).2.1, (joinSextets_letters second third).2.2]
                rfl
              have same' : Base64.decode (c₀ :: c₁ :: c₂ :: c₃ :: text) =
                  Base64.join ([c₀, c₁, c₂, c₃].map Base64.sextet) ++ Base64.decode text := by
                rw [Base64.decode, letters_cons zeroth, letters_cons first, letters_cons second,
                  letters_cons third]
                rfl
              unfold Decodes at ih ⊢
              rw [misread_group zeroth first second third, same, same']
              split
              · rename_i more
                rw [if_pos more] at ih
                obtain ⟨b, rest, split⟩ := ih
                exact ⟨b, rest, by rw [split, List.append_assoc]⟩
              · rename_i stop
                rw [if_neg stop] at ih
                rw [ih]
            · apply Decodes.of_inside
              · simp [Base64.letters, zeroth, first, second, third]
              · rw [decoded, groupBytes_triple zeroth first second
                  (fun less => third ((decodeChar_lt_iff c₃).mp less)), Base64.decode,
                  letters_cons zeroth, letters_cons first, letters_cons second, letters_other third]
          · exact decodes_double zeroth first second _
        · exact decodes_single zeroth first _
      · exact decodes_other zeroth _
  | case2 c₀ c₁ c₂ =>
      by_cases zeroth : c₀ ∈ Base64.alphabet
      · by_cases first : c₁ ∈ Base64.alphabet
        · by_cases second : c₂ ∈ Base64.alphabet
          · apply Decodes.of_inside
            · simp [Base64.letters, zeroth, first, second]
            · rw [decoded, groupBytes_triple zeroth first second missing, Base64.decode,
                letters_cons zeroth, letters_cons first, letters_cons second]
              rfl
          · exact decodes_double zeroth first second _
        · exact decodes_single zeroth first _
      · exact decodes_other zeroth _
  | case3 c₀ c₁ =>
      by_cases zeroth : c₀ ∈ Base64.alphabet
      · by_cases first : c₁ ∈ Base64.alphabet
        · apply Decodes.of_inside
          · simp [zeroth, first, Base64.letters]
          · rw [decoded, groupBytes, if_pos ((decodeChar_lt_iff c₁).mpr first), if_neg missing,
              (joinSextets_letters zeroth first).1, Base64.decode, letters_cons zeroth,
              letters_cons first]
            rfl
        · exact decodes_single zeroth first _
      · exact decodes_other zeroth _
  | case4 c₀ =>
      by_cases zeroth : c₀ ∈ Base64.alphabet
      · apply Decodes.of_inside
        · simp [zeroth, Base64.letters]
        · rw [decoded, groupBytes, if_neg missing, Base64.decode, letters_cons zeroth]
          rfl
      · exact decodes_other zeroth _
  | case5 => exact rfl

/-- The decoder returns exactly these bytes and ends them. -/
def DecodesLetters (input : Mem) (ilen : UInt16) (output : Mem) (olen : UInt16) : Prop :=
  ∃ o out, (base64Decode input ilen output olen).Returns (o, out) ∧
    o.toNat = (Base64.decode (input.bytes ilen.toNat)).length ∧
    out.bytes (o.toNat + 1) = Base64.decode (input.bytes ilen.toNat) ++ [0]

theorem decodesLetters_iff_take (input : Mem) (ilen : UInt16) (output : Mem) (room : 0 < olen) :
    DecodesLetters input ilen output olen ↔
      (decoded (input.bytes ilen.toNat)).take (olen.toNat - 1) =
        Base64.decode (input.bytes ilen.toNat) := by
  obtain ⟨o, run, count⟩ := base64Decode_decoded input ilen output room
  have size : o.toNat = ((decoded (input.bytes ilen.toNat)).take (olen.toNat - 1)).length := by
    rw [count, List.length_take, Nat.min_comm]
  have cells : (output.put ((decoded (input.bytes ilen.toNat)).take (olen.toNat - 1) ++ [0])).bytes
      (o.toNat + 1) = (decoded (input.bytes ilen.toNat)).take (olen.toNat - 1) ++ [0] := by
    have whole := Mem.bytes_put output
      ((decoded (input.bytes ilen.toNat)).take (olen.toNat - 1) ++ [0])
    rwa [List.length_append, ← size] at whole
  constructor
  · rintro ⟨o', out, run', -, right⟩
    obtain ⟨rfl, rfl⟩ := Prod.mk.inj (run.unique run')
    rw [cells] at right
    exact List.append_cancel_right right
  · intro same
    refine ⟨o, _, run, by rw [size, same], ?_⟩
    rw [cells, same]

theorem base64Decode_letters_iff (input : Mem) (ilen : UInt16) (output : Mem) (olen : UInt16)
    (room : (Base64.decode (input.bytes ilen.toNat)).length < olen.toNat) :
    DecodesLetters input ilen output olen ↔
      misread (input.bytes ilen.toNat) = false ∨
        olen.toNat = (Base64.decode (input.bytes ilen.toNat)).length + 1 := by
  have positive : 0 < olen := UInt16.lt_iff_toNat_lt.mpr (Nat.zero_lt_of_lt room)
  rw [decodesLetters_iff_take input ilen output positive]
  have text := decodes (input.bytes ilen.toNat)
  unfold Decodes at text
  cases read : misread (input.bytes ilen.toNat) with
  | false =>
      rw [read, if_neg (by decide)] at text
      rw [text, List.take_of_length_le (by omega)]
      exact ⟨fun _ => .inl rfl, fun _ => rfl⟩
  | true =>
      rw [read, if_pos rfl] at text
      obtain ⟨b, more, split⟩ := text
      rw [split, List.take_append]
      constructor
      · intro same
        have lengths := congrArg List.length same
        simp only [List.length_append, List.length_take, List.length_cons] at lengths
        exact .inr (by omega)
      · rintro (wrong | exact)
        · cases wrong
        · rw [exact, Nat.add_sub_cancel, List.take_length, Nat.sub_self, List.take_zero,
            List.append_nil]

theorem base64Decode_letters_bob :
    DecodesLetters (.ofBytes (ascii "Qm9i=abc")) 8 (fun _ => 0) 64 ↔ misread (ascii "Qm9i=abc") = false ∨
      (64 : UInt16).toNat = (Base64.decode (ascii "Qm9i=abc")).length + 1 :=
  base64Decode_letters_iff (.ofBytes (ascii "Qm9i=abc")) 8 (fun _ => 0) 64 (by decide +kernel)

theorem base64Decode_misread : ¬ DecodesLetters (.ofBytes (ascii "=AAA")) 4 (fun _ => 0) 64 := by
  rw [decodesLetters_iff_take _ _ _ (by decide)]
  decide +kernel

/-! ## There and back -/

theorem signFree_ascii {bytes : List UInt8} (text : ∀ b ∈ bytes, b < 128) (room : Nat) :
    SignFree room bytes := by
  fun_induction SignFree room bytes with
  | case1 room a b => exact fun _ => .inl (text b (by simp))
  | case2 room a b c bytes ih =>
      exact ⟨fun _ => .inl (text b (by simp)), fun _ => .inl (text c (by simp)),
        ih fun b member => text b (by simp [member])⟩
  | case3 => trivial

/-- A text of bytes below 0x80 comes back. -/
theorem base64_roundTrip (bytes : List UInt8) (text : ∀ b ∈ bytes, b < 128) (input : Mem)
    (ilen : UInt16) (given : input.bytes ilen.toNat = bytes) (middle output : Mem) (mlen olen : UInt16)
    (wide : 4 * ((bytes.length + 2) / 3) < mlen.toNat) (room : bytes.length < olen.toNat) :
    ∃ n code o out, (base64Encode input ilen middle mlen).Returns (n, code) ∧
      (base64Decode code n output olen).Returns (o, out) ∧
      o.toNat = bytes.length ∧ out.bytes (bytes.length + 1) = bytes ++ [0] := by
  have positive : 0 < mlen := UInt16.lt_iff_toNat_lt.mpr (Nat.zero_lt_of_lt wide)
  have positive' : 0 < olen := UInt16.lt_iff_toNat_lt.mpr (Nat.zero_lt_of_lt room)
  have standard : EncodesStandard input ilen middle mlen := by
    rw [encodesStandard_iff_take input ilen middle positive, written_take_iff, given]
    exact signFree_ascii text _
  obtain ⟨n, code, run, count, cells⟩ := standard
  have length := Base64.length_encode bytes
  have size : ilen.toNat = bytes.length := by rw [← given, Mem.length_bytes]
  have whole : n.toNat = (Base64.encode bytes).length := by
    rw [count, length, size]
    omega
  have letters : code.bytes n.toNat = Base64.encode bytes := by
    rw [given, List.take_of_length_le (by omega)] at cells
    rw [Mem.bytes, List.range_succ, List.map_append] at cells
    exact (List.append_inj' cells rfl).1
  obtain ⟨o, back, count'⟩ := base64Decode_decoded code n output positive'
  have same : decoded (Base64.encode bytes) = bytes :=
    decoded_encode bytes (k := 0) (by rw [List.replicate_zero, List.append_nil])
  rw [letters, same, List.take_of_length_le (by omega)] at back
  rw [letters, same] at count'
  refine ⟨n, code, o, _, run, back, by omega, ?_⟩
  have bytes' := Mem.bytes_put output (bytes ++ [0])
  rwa [List.length_append] at bytes'

theorem base64_roundTrip_user :
    ∃ n code o out, (base64Encode (.ofBytes (ascii "user")) 4 (fun _ => 0) 9).Returns (n, code) ∧
      (base64Decode code n (fun _ => 0) 5).Returns (o, out) ∧
      o.toNat = 4 ∧ out.bytes 5 = ascii "user" ++ [0] :=
  base64_roundTrip (ascii "user") (by decide) (.ofBytes (ascii "user")) 4 (by decide)
    (fun _ => 0) (fun _ => 0) 9 5 (by decide) (by decide)

/-! ## Room -/

/-- Only cells below `olen` are written, whatever the output held, and the count stays below it. -/
def Within (olen : UInt16) (run : Mem → Comp (UInt16 × Mem)) : Prop :=
  ∀ output, ∃ o out, (run output).Returns (o, out) ∧
    (∀ k, olen.toNat ≤ k → out k = output k) ∧ (out ≠ output → o < olen)

theorem Within.of_put {run : Mem → Comp (UInt16 × Mem)} (text : List UInt8) (room : 0 < olen)
    (writes : ∀ output, ∃ o,
      (run output).Returns (o, output.put (text.take (olen.toNat - 1) ++ [0])) ∧
        o.toNat = min text.length (olen.toNat - 1)) : Within olen run := by
  have positive := UInt16.lt_iff_toNat_lt.mp room
  simp only [UInt16.toNat_zero] at positive
  intro output
  obtain ⟨o, returns, count⟩ := writes output
  refine ⟨o, _, returns, fun k beyond => ?_, fun _ => ?_⟩
  · apply Mem.put_of_le
    rw [List.length_append, List.length_take, List.length_singleton]
    omega
  · rw [UInt16.lt_iff_toNat_lt, count]
    omega

theorem base64_roomless {ilen width : UInt16} {group : Base64Loop → Except Base64Loop Base64Loop}
    (full : ∀ t, group t = .error t) (t : Base64Loop) :
    (doWhile (base64Step ilen width group) t).Returns t := by
  have step : base64Step ilen width group t = (t, false) := by
    unfold base64Step
    split
    · rw [full t]
    · rfl
  apply (doWhile_exit (by rw [step])).mpr
  rw [step]

theorem Base64Loop.room_zero (t : Base64Loop) : t.room 0 = .error t :=
  if_pos (UInt16.le_iff_toNat_le.mpr (Nat.zero_le _))

theorem not_within_zero {ilen width : UInt16} {group : Base64Loop → Except Base64Loop Base64Loop}
    (full : ∀ t, group t = .error t) : ¬ Within 0 fun output =>
      doWhile (base64Step ilen width group) ⟨0, 0, output⟩ >>= fun t => pure (t.terminate 0) := by
  intro within
  obtain ⟨o, out, run, cells, _⟩ := within fun _ => 1
  have loop : (doWhile (base64Step ilen width group) ⟨0, 0, fun _ => 1⟩).Returns
      ⟨0, 0, fun _ => 1⟩ := base64_roomless full _
  have run' := loop.bind (f := fun t => pure (t.terminate 0)) (returns_pure.mpr rfl)
  obtain ⟨rfl, rfl⟩ := Prod.mk.inj (run.unique run')
  have cell := cells 65535 (Nat.zero_le _)
  exact absurd cell (by decide)

theorem base64_within_iff (input : Mem) (ilen olen : UInt16) :
    (Within olen (base64Encode input ilen · olen) ↔ 0 < olen) ∧
      (Within olen (base64Decode input ilen · olen) ↔ 0 < olen) := by
  by_cases room : 0 < olen
  · exact ⟨⟨fun _ => room, fun _ => .of_put _ room fun output =>
        base64Encode_written input ilen output room⟩,
      ⟨fun _ => room, fun _ => .of_put _ room fun output =>
        base64Decode_decoded input ilen output room⟩⟩
  · obtain rfl : olen = 0 := by
      rw [UInt16.lt_iff_toNat_lt] at room
      exact UInt16.toNat_inj.mp (by simpa using room)
    have encode (t : Base64Loop) : encodeGroup input ilen 0 t = .error t := by
      unfold encodeGroup
      rw [t.room_zero]
      rfl
    have decode (t : Base64Loop) : decodeGroup input ilen 0 t = .error t := by
      unfold decodeGroup
      dsimp only
      rw [t.room_zero]
      rfl
    exact ⟨⟨fun within => absurd within (not_within_zero encode), fun less => absurd less room⟩,
      ⟨fun within => absurd within (not_within_zero decode), fun less => absurd less room⟩⟩

theorem base64Encode_outside : ¬ Within 0 (base64Encode (.ofBytes (ascii "a")) 1 · 0) := by
  refine not_within_zero fun t => ?_
  unfold encodeGroup
  rw [t.room_zero]
  rfl

end AttoHTTP
