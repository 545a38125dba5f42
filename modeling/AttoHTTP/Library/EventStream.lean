import AttoHTTP.Library.Memory

namespace Library

def endsLine (b : UInt8) : Bool := b == 10 || b == 13

/-- The parts between the line ends, the last of which no end follows. `line` is what has been read
of the current one, and `cr` says that the byte before was a CR. -/
def parts (line : List UInt8) (cr : Bool) : List UInt8 → List (List UInt8)
  | [] => [line]
  | b :: text =>
      if b = 10 then if cr then parts line false text else line :: parts [] false text
      else if b = 13 then line :: parts [] true text
      else parts (line ++ [b]) false text

/-- A receiver may drop a space in front of a value. -/
def fieldText (drops : Bool) (value : List UInt8) : List UInt8 :=
  if drops = true ∧ value.head? = some 32 then value.tail else value

def fieldLine (drops : Bool) (name line : List UInt8) : Option (List UInt8) :=
  if name <+: line then some (fieldText drops (line.drop name.length)) else none

def eventName (drops : Bool) (block : List (List UInt8)) : List UInt8 :=
  (block.filterMap (fieldLine drops (ascii "event:"))).getLast?.getD []

def eventData (drops : Bool) (block : List (List UInt8)) : List UInt8 :=
  [10].intercalate (block.filterMap (fieldLine drops (ascii "data:")))

/-- Some lines, an empty one, and nothing more. -/
def OneEvent (drops : Bool) (text name data : List UInt8) : Prop :=
  ∃ block, parts [] false text = block ++ [[], []] ∧ [] ∉ block ∧
    eventName drops block = name ∧ eventData drops block = data

theorem endsLine_false {b : UInt8} : endsLine b = false ↔ b ≠ 10 ∧ b ≠ 13 := by simp [endsLine]

theorem parts_line {text : List UInt8} (plain : ∀ b ∈ text, endsLine b = false)
    (line rest : List UInt8) :
    parts line false (text ++ 10 :: rest) = (line ++ text) :: parts [] false rest := by
  induction text generalizing line with
  | nil => simp [parts]
  | cons b text ih =>
      obtain ⟨lf, cr⟩ := endsLine_false.mp (plain b (by simp))
      rw [List.cons_append, parts, if_neg lf, if_neg cr, ih fun c member => plain c (by simp [member])]
      simp

theorem parts_plain {line : List UInt8} (plain : ∀ b ∈ line, endsLine b = false) (cr : Bool)
    (text : List UInt8) : ∀ l ∈ parts line cr text, ∀ b ∈ l, endsLine b = false := by
  induction text generalizing line cr with
  | nil => simpa [parts] using plain
  | cons b text ih =>
      rw [parts]
      by_cases lf : b = 10
      · rw [if_pos lf]
        cases cr with
        | true => exact ih plain false
        | false =>
            rw [if_neg (by simp)]
            exact List.forall_mem_cons.mpr ⟨plain, ih (by simp) false⟩
      · rw [if_neg lf]
        by_cases return' : b = 13
        · rw [if_pos return']
          exact List.forall_mem_cons.mpr ⟨plain, ih (by simp) true⟩
        · rw [if_neg return']
          refine ih (fun c member => ?_) false
          rcases List.mem_append.mp member with old | new
          · exact plain c old
          · rw [List.mem_singleton.mp new]
            exact endsLine_false.mpr ⟨lf, return'⟩

theorem parts_length (line : List UInt8) (cr : Bool) (text : List UInt8) :
    ((parts line cr text).map List.length).sum =
      line.length + text.countP fun b => !endsLine b := by
  induction text generalizing line cr with
  | nil => simp [parts]
  | cons b text ih =>
      rw [parts]
      by_cases lf : b = 10
      · rw [if_pos lf]
        cases cr <;> simp [ih, lf, endsLine]
      · rw [if_neg lf]
        by_cases return' : b = 13
        · rw [if_pos return']
          simp [ih, return', endsLine]
        · rw [if_neg return', ih]
          simp [endsLine, lf, return']
          omega

theorem fieldText_suffix (drops : Bool) (value : List UInt8) : fieldText drops value <:+ value := by
  unfold fieldText
  split
  · exact List.tail_suffix value
  · exact List.suffix_refl value

theorem fieldText_eq_iff (drops : Bool) (value : List UInt8) :
    fieldText drops value = value ↔ (drops = true → value.head? ≠ some 32) := by
  unfold fieldText
  split
  · rename_i space
    cases value with
    | nil => simp at space
    | cons b value => simp [space.1, Option.some.inj space.2]
  · rename_i kept
    exact iff_of_true rfl fun drops space => kept ⟨drops, space⟩

theorem fieldLine_suffix {drops : Bool} {name line value : List UInt8}
    (found : fieldLine drops name line = some value) :
    value <:+ line ∧ value.length + name.length ≤ line.length := by
  unfold fieldLine at found
  split at found
  · rename_i named
    cases found
    have cut := fieldText_suffix drops (line.drop name.length)
    have length := cut.length_le
    have fits := named.length_le
    rw [List.length_drop] at length
    exact ⟨cut.trans (List.drop_suffix ..), by omega⟩
  · cases found

theorem fieldLine_append (drops : Bool) (name value : List UInt8) :
    fieldLine drops name (name ++ value) = some (fieldText drops value) := by
  rw [fieldLine, if_pos (List.prefix_append name value), List.drop_left]

theorem eventName_plain {drops : Bool} {block : List (List UInt8)}
    (plain : ∀ line ∈ block, ∀ b ∈ line, endsLine b = false) :
    ∀ b ∈ eventName drops block, endsLine b = false := by
  intro b member
  unfold eventName at member
  cases last : (block.filterMap (fieldLine drops (ascii "event:"))).getLast? with
  | none => simp [last] at member
  | some value =>
      rw [last] at member
      obtain ⟨line, inside, found⟩ := List.mem_filterMap.mp (List.mem_of_getLast? last)
      exact plain line inside b ((fieldLine_suffix found).1.subset member)

theorem intercalate_length {values : List (List UInt8)} (nonempty : values ≠ []) :
    ([10].intercalate values).length + 1 = (values.map fun v => v.length + 1).sum := by
  induction values with
  | nil => exact absurd rfl nonempty
  | cons v values ih =>
      cases values with
      | nil => simp [List.intercalate_singleton]
      | cons w values =>
          have later := ih (by simp)
          rw [List.intercalate_cons_cons]
          simp only [List.length_append, List.map_cons, List.sum_cons,
            List.length_singleton] at later ⊢
          omega

theorem eventData_length {drops : Bool} {block : List (List UInt8)}
    (nonempty : eventData drops block ≠ []) :
    (eventData drops block).length + 5 ≤ (block.map List.length).sum := by
  have values : block.filterMap (fieldLine drops (ascii "data:")) ≠ [] := by
    intro none
    exact nonempty (by rw [eventData, none]; rfl)
  have cost (lines : List (List UInt8)) :
      ((lines.filterMap (fieldLine drops (ascii "data:"))).map fun v => v.length + 1).sum +
        4 * (lines.filterMap (fieldLine drops (ascii "data:"))).length ≤
          (lines.map List.length).sum := by
    induction lines with
    | nil => simp
    | cons line lines ih =>
        cases found : fieldLine drops (ascii "data:") line with
        | none =>
            rw [List.filterMap_cons_none found, List.map_cons, List.sum_cons]
            omega
        | some value =>
            have fits : value.length + 5 ≤ line.length := (fieldLine_suffix found).2
            rw [List.filterMap_cons_some found]
            simp only [List.map_cons, List.sum_cons, List.length_cons]
            omega
  have whole := cost block
  have joined := intercalate_length values
  have positive := List.length_pos_iff.mpr values
  unfold eventData
  omega

/-! ## Events one after another -/

/-- The format drops what comes without data, a name or not. -/
def dataLines (drops : Bool) (block : List (List UInt8)) : List (List UInt8) :=
  block.filterMap (fieldLine drops (ascii "data:"))

/-- The events that lines make up; an empty line ends one. -/
def dispatch (drops : Bool) (block : List (List UInt8)) :
    List (List UInt8) → List (List UInt8 × List UInt8)
  | [] => []
  | line :: lines =>
      if line = [] then
        if dataLines drops block = [] then dispatch drops [] lines
        else (eventName drops block, eventData drops block) :: dispatch drops [] lines
      else dispatch drops (block ++ [line]) lines

/-- What a receiver has been told by a text so far: its last part may still go on. -/
def received (drops : Bool) (text : List UInt8) : List (List UInt8 × List UInt8) :=
  dispatch drops [] (parts [] false text).dropLast

theorem parts_ne_nil (line : List UInt8) (cr : Bool) (text : List UInt8) :
    parts line cr text ≠ [] := by
  induction text generalizing line cr with
  | nil => simp [parts]
  | cons b text ih =>
      rw [parts]
      split
      · split
        · exact ih line false
        · exact List.cons_ne_nil _ _
      · split
        · exact List.cons_ne_nil _ _
        · exact ih (line ++ [b]) false

theorem parts_front (line : List UInt8) (cr : Bool) (text more : List UInt8) :
    (parts line cr text).dropLast <+: (parts line cr (text ++ more)).dropLast := by
  have next (line : List UInt8) {a b : List (List UInt8)} (some : a ≠ []) (some' : b ≠ [])
      (front : a.dropLast <+: b.dropLast) : (line :: a).dropLast <+: (line :: b).dropLast := by
    rw [List.dropLast_cons_of_ne_nil some, List.dropLast_cons_of_ne_nil some']
    exact (List.prefix_cons_inj line).mpr front
  induction text generalizing line cr with
  | nil => exact List.nil_prefix
  | cons b text ih =>
      rw [List.cons_append, parts, parts]
      by_cases lf : b = 10
      · rw [if_pos lf, if_pos lf]
        cases cr with
        | true => exact ih line false
        | false => exact next line (parts_ne_nil _ _ _) (parts_ne_nil _ _ _) (ih [] false)
      · rw [if_neg lf, if_neg lf]
        split
        · exact next line (parts_ne_nil _ _ _) (parts_ne_nil _ _ _) (ih [] true)
        · exact ih (line ++ [b]) false

theorem dispatch_front (drops : Bool) (block : List (List UInt8)) {lines lines' : List (List UInt8)}
    (front : lines <+: lines') : dispatch drops block lines <+: dispatch drops block lines' := by
  obtain ⟨more, rfl⟩ := front
  induction lines generalizing block with
  | nil => exact List.nil_prefix
  | cons line lines ih =>
      rw [List.cons_append, dispatch, dispatch]
      split
      · split
        · exact ih []
        · exact (List.prefix_cons_inj _).mpr (ih [])
      · exact ih (block ++ [line])

theorem received_front (drops : Bool) {text whole : List UInt8} (front : text <+: whole) :
    received drops text <+: received drops whole := by
  obtain ⟨more, rfl⟩ := front
  exact dispatch_front drops [] (parts_front [] false text more)

theorem dispatch_block (drops : Bool) {block : List (List UInt8)} (full : [] ∉ block)
    (collected lines : List (List UInt8)) :
    dispatch drops collected (block ++ [] :: lines) =
      if dataLines drops (collected ++ block) = [] then dispatch drops [] lines
      else (eventName drops (collected ++ block), eventData drops (collected ++ block)) ::
        dispatch drops [] lines := by
  induction block generalizing collected with
  | nil => rw [List.nil_append, dispatch, if_pos rfl, List.append_nil]
  | cons line block ih =>
      rw [List.mem_cons, not_or] at full
      rw [List.cons_append, dispatch, if_neg (Ne.symm full.1), ih full.2, List.append_assoc,
        List.singleton_append]

end Library
