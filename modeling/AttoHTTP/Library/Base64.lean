import AttoHTTP.Library.Memory

/-!
# Base64 text

RFC 2045: three bytes make four sextets, each written as a letter of the alphabet, and the last
group is filled up with `=`.
-/

namespace Library.Base64

def alphabet : List UInt8 :=
  ascii "ABCDEFGHIJKLMNOPQRSTUVWXYZabcdefghijklmnopqrstuvwxyz0123456789+/"

def pad : UInt8 := 61

def letter (sextet : Nat) : UInt8 := alphabet.getD sextet pad

/-- The sextets of a group, where missing bytes count as zero. -/
def first (a : UInt8) : Nat := a.toNat / 4

def second (a b : UInt8) : Nat := a.toNat % 4 * 16 + b.toNat / 16

def third (b c : UInt8) : Nat := b.toNat % 16 * 4 + c.toNat / 64

def fourth (c : UInt8) : Nat := c.toNat % 64

def encode : List UInt8 → List UInt8
  | [] => []
  | [a] => [letter (first a), letter (second a 0), pad, pad]
  | [a, b] => [letter (first a), letter (second a b), letter (third b 0), pad]
  | a :: b :: c :: bytes =>
      letter (first a) :: letter (second a b) :: letter (third b c) :: letter (fourth c) ::
        encode bytes

def sextet (c : UInt8) : Nat := alphabet.idxOf c

/-- The whole bytes in a row of sextets. -/
def join : List Nat → List UInt8
  | s₀ :: s₁ :: s₂ :: s₃ :: sextets =>
      UInt8.ofNat (s₀ * 4 + s₁ / 16) :: UInt8.ofNat (s₁ % 16 * 16 + s₂ / 4) ::
        UInt8.ofNat (s₂ % 4 * 64 + s₃) :: join sextets
  | [s₀, s₁, s₂] => [UInt8.ofNat (s₀ * 4 + s₁ / 16), UInt8.ofNat (s₁ % 16 * 16 + s₂ / 4)]
  | [s₀, s₁] => [UInt8.ofNat (s₀ * 4 + s₁ / 16)]
  | _ => []

def letters (text : List UInt8) : List UInt8 := text.takeWhile (· ∈ alphabet)

/-- The whole bytes that the letters in front determine. -/
def decode (text : List UInt8) : List UInt8 := join ((letters text).map sextet)

theorem first_lt (a : UInt8) : first a < 64 := by
  have := a.toNat_lt
  unfold first
  omega

theorem second_lt (a b : UInt8) : second a b < 64 := by
  have := b.toNat_lt
  unfold second
  omega

theorem third_lt (b c : UInt8) : third b c < 64 := by
  have := c.toNat_lt
  unfold third
  omega

theorem fourth_lt (c : UInt8) : fourth c < 64 := Nat.mod_lt _ (by decide)

theorem alphabet_nodup : alphabet.Nodup := by decide

theorem length_alphabet : alphabet.length = 64 := by decide

theorem letter_eq (n : Nat) (small : n < alphabet.length) : letter n = alphabet[n] := by
  simp [letter, small]

theorem letter_mem (n : Nat) (small : n < 64) : letter n ∈ alphabet := by
  rw [letter_eq n (length_alphabet ▸ small)]
  exact List.getElem_mem _

theorem letter_injective (m : Nat) (small : m < 64) (n : Nat) (small' : n < 64)
    (same : letter m = letter n) : m = n := by
  rw [letter_eq m (length_alphabet ▸ small), letter_eq n (length_alphabet ▸ small')] at same
  exact alphabet_nodup.getElem_inj_iff.mp same

theorem letter_inj {m n : Nat} (small : m < 64) (small' : n < 64) : letter m = letter n ↔ m = n :=
  ⟨letter_injective m small n small', congrArg letter⟩

theorem letter_ne_pad (n : Nat) (small : n < 64) : letter n ≠ pad := by
  have letters : ∀ c ∈ alphabet, c ≠ pad := by decide
  exact letters _ (letter_mem n small)

theorem length_encode (bytes : List UInt8) : (encode bytes).length = 4 * ((bytes.length + 2) / 3) := by
  fun_induction encode bytes with
  | case1 => rfl
  | case2 a => simp
  | case3 a b => simp
  | case4 a b c bytes ih =>
      simp only [List.length_cons, ih]
      omega

end Library.Base64
