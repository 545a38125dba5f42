import AttoHTTP.Library.Memory

namespace Library

/-- The lines before the empty one and what comes after it; `line` is the part of a line that has
been read. -/
def readHead (line : List UInt8) : List UInt8 → Option (List (List UInt8) × List UInt8)
  | [] => none
  | b :: text =>
      if b = 10 ∧ line.getLast? = some 13 then
        if line = [13] then some ([], text)
        else (readHead [] text).map fun p => (line.dropLast :: p.1, p.2)
      else readHead (line ++ [b]) text

/-- The value, if the line is a field of that name in any letter case. -/
def fieldValue (name line : List UInt8) : Option (List UInt8) :=
  if 58 ∈ line ∧ (line.takeWhile (· != 58)).map toLower = name.map toLower then
    some (((line.dropWhile (· != 58)).drop 1).dropWhile isBlank)
  else none

def isDigit (b : UInt8) : Bool := 48 ≤ b && b ≤ 57

def decimalValue (digits : List UInt8) : Option Nat :=
  if digits ≠ [] ∧ digits.all isDigit then
    some (digits.foldl (fun n b => 10 * n + (b.toNat - 48)) 0)
  else none

theorem readHead_line {text : List UInt8} (plain : 10 ∉ text) (line rest : List UInt8) :
    readHead line (text ++ 13 :: 10 :: rest) =
      if line ++ text = [] then some ([], rest)
      else (readHead [] rest).map fun p => ((line ++ text) :: p.1, p.2) := by
  induction text generalizing line with
  | nil =>
      rw [List.nil_append, readHead, if_neg (by simp), readHead, if_pos (by simp),
        List.dropLast_concat]
      cases line with
      | nil => simp
      | cons b line => simp
  | cons b text ih =>
      have other : b ≠ 10 := fun same => plain (by simp [same])
      rw [List.cons_append, readHead, if_neg (by simp [other]),
        ih (fun member => plain (by simp [member]))]
      simp

theorem readHead_cons {text : List UInt8} (plain : 10 ∉ text) (nonempty : text ≠ [])
    {rest body : List UInt8} {lines : List (List UInt8)} (later : readHead [] rest = some (lines, body)) :
    readHead [] (text ++ 13 :: 10 :: rest) = some (text :: lines, body) := by
  rw [readHead_line plain, List.nil_append, if_neg nonempty, later]
  rfl

theorem readHead_end (body : List UInt8) : readHead [] (13 :: 10 :: body) = some ([], body) :=
  @readHead_line [] (by simp) [] body

theorem readHead_lines {lines : List (List UInt8)} (plain : ∀ line ∈ lines, 10 ∉ line ∧ line ≠ [])
    (body : List UInt8) :
    readHead [] ((lines.map (· ++ [13, 10])).flatten ++ 13 :: 10 :: body) = some (lines, body) := by
  induction lines with
  | nil => exact readHead_end body
  | cons line lines ih =>
      have first := plain line (by simp)
      have later := ih fun line member => plain line (by simp [member])
      rw [List.map_cons, List.flatten_cons, List.append_assoc, List.append_assoc]
      exact readHead_cons first.1 first.2 later

theorem fieldValue_named {name : List UInt8} (value : List UInt8) (plain : 58 ∉ name)
    (start : ∀ b ∈ value.head?, isBlank b = false) :
    fieldValue name (name ++ 58 :: 32 :: value) = some value := by
  have before : ∀ b ∈ name, (b != 58) = true := by
    intro b member
    rw [bne_iff_ne]
    exact fun same => plain (same ▸ member)
  have blanks : value.dropWhile isBlank = value := by
    cases value with
    | nil => rfl
    | cons b value => simp [start b rfl]
  rw [fieldValue, if_pos, List.dropWhile_append_of_pos before]
  · simp [show isBlank 32 = true from rfl, blanks]
  · refine ⟨by simp, ?_⟩
    rw [List.takeWhile_append_of_pos before]
    simp

end Library
