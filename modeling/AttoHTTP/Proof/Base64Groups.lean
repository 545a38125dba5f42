import AttoHTTP.Proof.Base64

/-!
# The groups the decoder reads

The index of the decoder moves from one group of four characters to the next and does not come
back, although it has only 16 bits; each group gives three bytes at most.
-/

namespace AttoHTTP
open Library Comp

/-! ## Three bytes for four characters -/

theorem groupBytes_length (c₀ c₁ c₂ c₃ : Int8) (more : List UInt8) :
    (groupBytes c₀ c₁ c₂ c₃ more).length ≤ more.length + 3 := by
  unfold groupBytes
  split
  · split
    · split
      · rfl
      · simp
    · simp
  · simp

theorem decoded_length (text : List UInt8) : (decoded text).length ≤ 3 * text.length / 4 := by
  have missing : ¬ (65 : Int8) < 64 := by decide
  induction text using decoded.induct with
  | case1 c₀ c₁ c₂ c₃ text ih =>
      have group := groupBytes_length (base64DecodeChar c₀) (base64DecodeChar c₁)
        (base64DecodeChar c₂) (base64DecodeChar c₃) (decoded text)
      rw [decoded]
      simp only [List.length_cons]
      omega
  | case2 c₀ c₁ c₂ =>
      rw [decoded, groupBytes, if_neg missing]
      split
      · split
        · simp
        · simp
      · simp
  | case3 c₀ c₁ =>
      rw [decoded, groupBytes, if_neg missing]
      split
      · simp
      · simp
  | case4 c₀ =>
      rw [decoded, groupBytes, if_neg missing]
      simp
  | case5 => simp [decoded]

/-! ## The rounds -/

theorem decodeStep_again {input m : Mem} {ilen olen i : UInt16} {t : Base64Loop} {text : List UInt8}
    (holds : t.Holds m text i) (short : text.length ≤ olen.toNat)
    (again : (base64Step ilen 4 (decodeGroup input ilen olen) t).2 = true) :
    ∃ text' i', (base64Step ilen 4 (decodeGroup input ilen olen) t).1.Holds m text' i' ∧
      text'.length ≤ olen.toNat ∧ i'.toNat = i.toNat + 4 := by
  unfold base64Step at again ⊢
  rw [holds.i] at again ⊢
  by_cases inside : i < ilen
  · rw [if_pos inside] at again ⊢
    have reached := decodeGroup_reaches input holds short inside
    cases out : decodeGroup input ilen olen t with
    | error t' =>
        rw [out] at again
        cases again
    | ok t' =>
        have whole := decodeGroup_ok out
        rw [holds.i] at whole
        rw [out] at reached
        cases reached with
        | @next _ text' holds' short' split =>
            refine ⟨text', i + 4, ⟨holds'.output, holds'.o, ?_⟩, short', ?_⟩
            · rw [← holds'.i]
            · have bound := ilen.toNat_lt
              rw [UInt16.toNat_add]
              change (i.toNat + 4) % 2 ^ 16 = i.toNat + 4
              omega
  · rw [if_neg inside] at again
    cases again

theorem decodeRounds_groups {input m : Mem} {ilen olen i : UInt16} {t : Base64Loop}
    {text : List UInt8} {rounds : List Base64Loop} (holds : t.Holds m text i)
    (short : text.length ≤ olen.toNat)
    (run : Rounds (base64Step ilen 4 (decodeGroup input ilen olen)) t rounds) :
    rounds.map (fun t => t.i.toNat) = (List.range rounds.length).map fun k => i.toNat + 4 * k := by
  induction run generalizing text i with
  | last stop => simp [holds.i]
  | @next t rounds again rest ih =>
      obtain ⟨text', i', holds', short', moved⟩ := decodeStep_again holds short again
      rw [List.map_cons, ih holds' short', List.length_cons, List.range_succ_eq_map, List.map_cons,
        List.map_map, holds.i, moved]
      congr 1
      apply List.map_congr_left
      intro k _
      dsimp only [Function.comp_apply]
      omega

/-- The decoder ends; the rounds it returns from take the groups of the input one after another, and it
returns no more than three bytes for four characters. -/
theorem base64Decode_once (input : Mem) (ilen : UInt16) (output : Mem) (olen : UInt16)
    (room : 0 < olen) :
    ∃ o out rounds last, (base64Decode input ilen output olen).Returns (o, out) ∧
      Rounds (base64Step ilen 4 (decodeGroup input ilen olen)) ⟨0, 0, output⟩ rounds ∧
      rounds.getLast? = some last ∧
      (o, out) = (base64Step ilen 4 (decodeGroup input ilen olen) last).1.terminate olen ∧
      rounds.map (fun t => t.i.toNat) = (List.range rounds.length).map (4 * ·) ∧
      o.toNat ≤ 3 * ilen.toNat / 4 := by
  obtain ⟨o, run, count⟩ := base64Decode_decoded input ilen output room
  obtain ⟨t, loop, done⟩ := returns_bind.mp run
  obtain ⟨rounds, visited⟩ := doWhile_rounds loop
  obtain ⟨last, found, ends⟩ := visited.returns
  have start : (⟨0, 0, output⟩ : Base64Loop).Holds output [] 0 := ⟨rfl, rfl, rfl⟩
  refine ⟨o, _, rounds, last, run, visited, found, ?_, ?_, ?_⟩
  · rw [← loop.unique ends]
    exact returns_pure.mp done
  · rw [decodeRounds_groups start (Nat.zero_le _) visited]
    simp
  · have length := decoded_length (input.bytes ilen.toNat)
    rw [Mem.length_bytes] at length
    rw [count]
    exact (Nat.min_le_left _ _).trans length

theorem base64Decode_once_me :
    ∃ o out rounds last,
      (base64Decode (.ofBytes (ascii "bWU6bWU=")) 8 (fun _ => 0) 64).Returns (o, out) ∧
      Rounds (base64Step 8 4 (decodeGroup (.ofBytes (ascii "bWU6bWU=")) 8 64))
        ⟨0, 0, fun _ => 0⟩ rounds ∧
      rounds.getLast? = some last ∧
      (o, out) = (base64Step 8 4 (decodeGroup (.ofBytes (ascii "bWU6bWU=")) 8 64) last).1.terminate 64 ∧
      rounds.map (fun t => t.i.toNat) = (List.range rounds.length).map (4 * ·) ∧
      o.toNat ≤ 3 * (8 : UInt16).toNat / 4 :=
  base64Decode_once _ 8 _ 64 (by decide)

end AttoHTTP
