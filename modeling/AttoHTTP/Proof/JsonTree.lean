import AttoHTTP.Proof.JsonFlat

/-!
# Nested values

Inside of a nested value the reader only counts brackets. Which closing bracket it takes for the last
one depends on the brackets around it.
-/

namespace AttoHTTP
open Library Comp

/-! ## Trees -/

inductive JsonKind
  | object
  | array
deriving DecidableEq

def JsonKind.open : JsonKind → UInt8
  | .object => 123
  | .array => 91

def JsonKind.close : JsonKind → UInt8
  | .object => 125
  | .array => 93

inductive JsonLabel
  | keyed (lead : List UInt8) (key : JsonToken) (gap space : List UInt8)
  | blank (lead : List UInt8)

def JsonLabel.source : JsonLabel → List UInt8
  | .keyed lead key gap space => lead ++ (key.source ++ (gap ++ 58 :: space))
  | .blank lead => lead

/-- The members of an object or the elements of an array, in a row. -/
inductive JsonItems
  | nil
  | scalar (label : JsonLabel) (token : JsonToken) (trail : List UInt8) (more : JsonItems)
  | nest (label : JsonLabel) (kind : JsonKind) (space : List UInt8) (inner : JsonItems)
      (trail : List UInt8) (more : JsonItems)

def JsonItems.comma : JsonItems → List UInt8
  | .nil => []
  | _ => [44]

def JsonItems.source : JsonItems → List UInt8
  | .nil => []
  | .scalar label token trail more =>
      label.source ++ (token.source ++ (trail ++ (more.comma ++ more.source)))
  | .nest label kind space inner trail more =>
      label.source ++ kind.open ::
        (space ++ (inner.source ++ kind.close :: (trail ++ (more.comma ++ more.source))))

def nestSource (kind : JsonKind) (space : List UInt8) (inner : JsonItems) : List UInt8 :=
  kind.open :: (space ++ (inner.source ++ [kind.close]))

theorem inner_length (label : JsonLabel) (kind : JsonKind) (space : List UInt8) (inner : JsonItems)
    (trail : List UInt8) (more : JsonItems) : inner.source.length + 1 ≤
      (JsonItems.nest label kind space inner trail more).source.length ∧ more.source.length ≤
        (JsonItems.nest label kind space inner trail more).source.length := by
  simp only [JsonItems.source, List.length_append, List.length_cons]
  omega

theorem more_length (label : JsonLabel) (token : JsonToken) (trail : List UInt8) (more : JsonItems) :
    more.source.length ≤ (JsonItems.scalar label token trail more).source.length := by
  simp only [JsonItems.source, List.length_append]
  omega

def JsonLabel.Formed : JsonKind → JsonLabel → Prop
  | .object, .keyed lead key gap space =>
      Blanks lead ∧ (key.Flat ∧ key.Keyable) ∧ Blanks gap ∧ Blanks space
  | .array, .blank lead => Blanks lead
  | _, _ => False

def JsonItems.Formed (kind : JsonKind) : JsonItems → Prop
  | .nil => True
  | .scalar label token trail more =>
      label.Formed kind ∧ (token.Flat ∧ token.Keyable) ∧ Blanks trail ∧ more.Formed kind
  | .nest label kind' space inner trail more =>
      label.Formed kind ∧ Blanks space ∧ inner.Formed kind' ∧ Blanks trail ∧ more.Formed kind

/-! ## Characters that are no brackets -/

def Clear (text : List UInt8) : Prop := ∀ b ∈ text, b ≠ 0 ∧ b ∉ [123, 125, 91, 93]

theorem Clear.append {text text' : List UInt8} (h : Clear text) (h' : Clear text') :
    Clear (text ++ text') := by
  intro b member
  cases List.mem_append.mp member with
  | inl first => exact h b first
  | inr second => exact h' b second

theorem Blanks.clear {text : List UInt8} (h : Blanks text) : Clear text := by
  intro b member
  have blank := h b member
  constructor
  · rintro rfl
    cases blank
  · intro bracket
    simp only [List.mem_cons, List.not_mem_nil, or_false] at bracket
    rcases bracket with rfl | rfl | rfl | rfl <;> cases blank

theorem JsonToken.Flat.clear {token : JsonToken} (h : token.Flat) : Clear token.source := by
  have other {b : UInt8} (plain : b ∉ [44, 123, 125, 91, 93]) : b ∉ [123, 125, 91, 93] :=
    fun member => plain (List.mem_cons_of_mem _ member)
  cases token with
  | quoted q text =>
      have quote : Clear [q.char] := by
        intro b member
        rw [List.mem_singleton] at member
        subst member
        cases q <;> exact ⟨by decide, by decide⟩
      have inside : Clear text := fun b member => ⟨(h b member).1, other (h b member).2.2⟩
      exact (quote.append inside).append quote
  | bare text => exact fun b member => ⟨(h.2 b member).1, other (h.2 b member).2.2.2⟩

theorem JsonLabel.Formed.clear {kind : JsonKind} {label : JsonLabel} (h : label.Formed kind) :
    Clear label.source := by
  cases label with
  | blank lead =>
      cases kind with
      | object => cases h
      | array => exact Blanks.clear h
  | keyed lead key gap space =>
      cases kind with
      | array => cases h
      | object =>
          obtain ⟨lead, key, gap, space⟩ := h
          have colon : Clear [58] := by
            intro b member
            rw [List.mem_singleton] at member
            subst member
            exact ⟨by decide, by decide⟩
          exact lead.clear.append (key.1.clear.append (gap.clear.append (colon.append space.clear)))

/-! ## Levels -/

def JsonState.enter (j : JsonState) : JsonKind → JsonState
  | .object => { j with cblevel := j.cblevel + 1 }
  | .array => { j with sblevel := j.sblevel + 1 }

/-- The reader stops when a bracket is closed that has been opened here. -/
def JsonState.Closes (j : JsonState) : JsonKind → Prop
  | .object => j.cblevel ≤ 1
  | .array => j.sblevel = 1

instance (j : JsonState) (kind : JsonKind) : Decidable (j.Closes kind) :=
  match kind with
  | .object => inferInstanceAs (Decidable (j.cblevel ≤ 1))
  | .array => inferInstanceAs (Decidable (j.sblevel = 1))

def JsonItems.Passes (j : JsonState) : JsonItems → Prop
  | .nil => True
  | .scalar _ _ _ more => more.Passes j
  | .nest _ kind _ inner _ more => inner.Passes (j.enter kind) ∧ ¬ j.Closes kind ∧ more.Passes j

/-- The bracket that the text began with is open, and this many more can be opened. -/
structure JsonState.Within (j : JsonState) (n : Nat) : Prop where
  room : j.cblevel.toNat + j.sblevel.toNat + n < 256
  base : (j.baselevel = 123 ∧ 0 < j.cblevel.toNat) ∨ (j.baselevel = 91 ∧ 0 < j.sblevel.toNat)

def JsonState.Deep (j : JsonState) : Prop := 1 < j.cblevel.toNat + j.sblevel.toNat

variable {j : JsonState} {s : JsonScan} {kind : JsonKind} {n : Nat} {c : UInt8}

theorem JsonState.Within.mono (h : j.Within n) {m : Nat} (less : m ≤ n) : j.Within m :=
  ⟨by have := h.room; omega, h.base⟩

theorem JsonState.Within.enter (h : j.Within (n + 1)) (kind : JsonKind) :
    (j.enter kind).Within n ∧ (j.enter kind).Deep := by
  have room := h.room
  cases kind with
  | object =>
      have more : (j.cblevel + 1).toNat = j.cblevel.toNat + 1 := by
        rw [UInt8.toNat_add, UInt8.toNat_one]
        omega
      refine ⟨⟨?_, ?_⟩, ?_⟩
      · change (j.cblevel + 1).toNat + j.sblevel.toNat + n < 256
        omega
      · cases h.base with
        | inl curly => exact .inl ⟨curly.1, by change 0 < (j.cblevel + 1).toNat; omega⟩
        | inr square => exact .inr square
      · change 1 < (j.cblevel + 1).toNat + j.sblevel.toNat
        rcases h.base with curly | square <;> omega
  | array =>
      have more : (j.sblevel + 1).toNat = j.sblevel.toNat + 1 := by
        rw [UInt8.toNat_add, UInt8.toNat_one]
        omega
      refine ⟨⟨?_, ?_⟩, ?_⟩
      · change j.cblevel.toNat + (j.sblevel + 1).toNat + n < 256
        omega
      · cases h.base with
        | inl curly => exact .inl curly
        | inr square => exact .inr ⟨square.1, by change 0 < (j.sblevel + 1).toNat; omega⟩
      · change 1 < j.cblevel.toNat + (j.sblevel + 1).toNat
        rcases h.base with curly | square <;> omega

theorem JsonState.Deep.level (deep : j.Deep) (h : j.Within n) : 1 < j.level := by
  have room := h.room
  rw [UInt8.lt_iff_toNat_lt, JsonState.level, UInt8.toNat_add, UInt8.toNat_one,
    Nat.mod_eq_of_lt (by omega)]
  exact deep

theorem lex_deep_clear (json : s.json = j) (deep : j.Deep) (h : j.Within n)
    (plain : c ∉ [123, 125, 91, 93]) : s.lex c = (s, .char, .next) := by
  subst json
  rw [lex_deep (deep.level h) (fun h => plain (by simp [h.1])) (fun h => plain (by simp [h.1])),
    nestJson_ordinary plain]
  rfl

theorem lex_deep_open (json : s.json = j) (deep : j.Deep) (h : j.Within n) :
    s.lex kind.open = ({ s with json := j.enter kind }, .char, .next) := by
  subst json
  cases kind with
  | object =>
      rw [lex_deep (deep.level h) (fun h => absurd h.1 (by decide))
        (fun h => absurd h.1 (by decide))]
      rfl
  | array =>
      rw [lex_deep (deep.level h) (fun h => absurd h.1 (by decide))
        (fun h => absurd h.1 (by decide))]
      rfl

theorem nestJson_close (j : JsonState) (kind : JsonKind) :
    nestJson kind.close (j.enter kind) = (j, decide (j.Closes kind)) := by
  cases kind with
  | object =>
      have back : j.cblevel + 1 - 1 = j.cblevel := add_sub_cancel_right _ _
      have step : nestJson 125 (j.enter .object) =
        ({ j with cblevel := j.cblevel + 1 - 1 }, decide (j.cblevel + 1 - 1 ≤ 1)) := rfl
      rw [back] at step
      exact step
  | array =>
      have back : j.sblevel + 1 - 1 = j.sblevel := add_sub_cancel_right _ _
      have step : nestJson 93 (j.enter .array) =
        ({ j with sblevel := j.sblevel + 1 - 1 }, decide (j.sblevel + 1 - 1 = 1)) := rfl
      rw [back] at step
      exact step

theorem lex_close_nest (json : s.json = j.enter kind) (h : j.Within (n + 1)) :
    s.lex kind.close = ({ s with json := j }, .char, if j.Closes kind then .stop else .next) := by
  obtain ⟨within, deep⟩ := h.enter kind
  have room := h.room
  have level : 1 < s.json.level := by
    rw [json]
    exact deep.level within
  have curly : ¬ (kind.close = 125 ∧ s.json.cblevel ≤ 1 ∧ s.json.baselevel = 123) := by
    rintro ⟨brace, low, base⟩
    rw [json] at low base
    cases kind with
    | array => cases brace
    | object =>
        have more : (j.cblevel + 1).toNat = j.cblevel.toNat + 1 := by
          rw [UInt8.toNat_add, UInt8.toNat_one]
          omega
        have low' : (j.cblevel + 1).toNat ≤ 1 := UInt8.le_iff_toNat_le.mp low
        cases h.base with
        | inl curly => omega
        | inr square => exact absurd (base.symm.trans square.1) (by decide)
  have square : ¬ (kind.close = 93 ∧ s.json.sblevel = 1 ∧ s.json.baselevel = 91) := by
    rintro ⟨bracket, one, base⟩
    rw [json] at one base
    cases kind with
    | object => cases bracket
    | array =>
        have more : (j.sblevel + 1).toNat = j.sblevel.toNat + 1 := by
          rw [UInt8.toNat_add, UInt8.toNat_one]
          omega
        have one' : (j.sblevel + 1).toNat = 1 := congrArg UInt8.toNat one
        cases h.base with
        | inl curly => exact absurd (base.symm.trans curly.1) (by decide)
        | inr square => omega
  rw [lex_deep level curly square, json, nestJson_close]
  simp

/-! ## Runs -/

/-- The loop stores the text and goes on. -/
def Writes (back : List UInt8) (j : JsonState) (text : List UInt8) (j' : JsonState) : Prop :=
  ∀ v : JsonView, v.scan.json = j → 0 < v.valueLen → v.run (text ++ back) =
    JsonView.run { v.stores text with scan := { v.scan with json := j' } } back

def Halts (back : List UInt8) (j : JsonState) (text : List UInt8) (j' : JsonState) : Prop :=
  ∀ v : JsonView, v.scan.json = j → 0 < v.valueLen → v.run (text ++ back) =
    ({ v.stores text with scan := { v.scan with json := j' } }, some back)

variable {back text text' : List UInt8} {j' j'' : JsonState}

theorem stores_append (v : JsonView) (text text' : List UInt8) :
    v.stores (text ++ text') = (v.stores text).stores text' := List.foldl_append

theorem Writes.nil (back : List UInt8) (j : JsonState) : Writes back j [] j := by
  intro v json _
  subst json
  rfl

theorem Writes.append (first : Writes (text' ++ back) j text j') (second : Writes back j' text' j'') :
    Writes back j (text ++ text') j'' := by
  intro v json room
  rw [List.append_assoc, first v json room,
    second { v.stores text with scan := { v.scan with json := j' } } rfl (stores_valueLen v text room),
    stores_setScan, ← stores_append]

theorem Writes.halts (first : Writes (text' ++ back) j text j') (second : Halts back j' text' j'') :
    Halts back j (text ++ text') j'' := by
  intro v json room
  rw [List.append_assoc, first v json room,
    second { v.stores text with scan := { v.scan with json := j' } } rfl (stores_valueLen v text room),
    stores_setScan, ← stores_append]

theorem char_writes (nonzero : c ≠ 0) (lex : ∀ s : JsonScan, s.json = j →
    s.lex c = ({ s with json := j' }, .char, .next)) : Writes back j [c] j' := by
  intro v json room
  have lex := lex v.scan json
  rw [List.singleton_append, run_next nonzero lex room, feed_char lex]
  rfl

theorem char_halts (nonzero : c ≠ 0) (lex : ∀ s : JsonScan, s.json = j →
    s.lex c = ({ s with json := j' }, .char, .stop)) : Halts back j [c] j' := by
  intro v json room
  have lex := lex v.scan json
  rw [List.singleton_append, run_stop nonzero lex, feed_char lex]
  rfl

theorem Clear.writes (clear : Clear text) (deep : j.Deep) (h : j.Within n) (back : List UInt8) :
    Writes back j text j := by
  induction text with
  | nil => exact .nil back j
  | cons c text ih =>
      obtain ⟨nonzero, plain⟩ := clear c (by simp)
      have first : Writes (text ++ back) j [c] j := char_writes nonzero fun s json => by
        rw [lex_deep_clear json deep h plain]
        subst json
        rfl
      exact first.append (ih fun b member => clear b (by simp [member]))

theorem open_writes (deep : j.Deep) (h : j.Within n) (back : List UInt8) :
    Writes back j [kind.open] (j.enter kind) :=
  char_writes (by cases kind <;> decide) fun _ json => lex_deep_open json deep h

theorem close_writes (h : j.Within (n + 1)) (stays : ¬ j.Closes kind) (back : List UInt8) :
    Writes back (j.enter kind) [kind.close] j :=
  char_writes (by cases kind <;> decide) fun _ json => by rw [lex_close_nest json h, if_neg stays]

theorem close_halts (h : j.Within (n + 1)) (closes : j.Closes kind) (back : List UInt8) :
    Halts back (j.enter kind) [kind.close] j :=
  char_halts (by cases kind <;> decide) fun _ json => by rw [lex_close_nest json h, if_pos closes]

theorem JsonItems.comma_clear (items : JsonItems) : Clear items.comma := by
  cases items with
  | nil => exact fun b member => nomatch member
  | scalar label token trail more =>
      intro b member
      obtain rfl := List.mem_singleton.mp member
      exact ⟨by decide, by decide⟩
  | nest label kind space inner trail more =>
      intro b member
      obtain rfl := List.mem_singleton.mp member
      exact ⟨by decide, by decide⟩

theorem items_write {items : JsonItems} (formed : items.Formed kind) (deep : j.Deep)
    (h : j.Within items.source.length) (passes : items.Passes j) (back : List UInt8) :
    Writes back j items.source j := by
  induction items generalizing j kind back with
  | nil => exact .nil back j
  | scalar label token trail more ih =>
      obtain ⟨labelled, value, blanks, formed⟩ := formed
      have less := more_length label token trail more
      exact (labelled.clear.writes deep h _).append ((value.1.clear.writes deep h _).append
        ((blanks.clear.writes deep h _).append ((more.comma_clear.writes deep h _).append
          (ih formed deep (h.mono less) passes back))))
  | nest label kind' space inner trail more ih ih' =>
      obtain ⟨labelled, blanks, formed, blanks', formed'⟩ := formed
      obtain ⟨passes, stays, passes'⟩ := passes
      have less := inner_length label kind' space inner trail more
      obtain ⟨within, deep'⟩ := (h.mono less.1).enter kind'
      exact (labelled.clear.writes deep h _).append ((open_writes deep h _).append
        ((blanks.clear.writes deep' within _).append ((ih formed deep' within passes _).append
          ((close_writes (h.mono less.1) stays _).append ((blanks'.clear.writes deep h _).append
            ((more.comma_clear.writes deep h _).append
              (ih' formed' deep (h.mono less.2) passes' back)))))))

def Stops (j : JsonState) (text : List UInt8) : Prop :=
  ∃ front rest j', text = front ++ rest ∧ ∀ back, Halts (rest ++ back) j front j'

theorem Stops.append (stops : Stops j text) (text' : List UInt8) : Stops j (text ++ text') := by
  obtain ⟨front, rest, j', rfl, halts⟩ := stops
  refine ⟨front, rest ++ text', j', List.append_assoc _ _ _, fun back => ?_⟩
  rw [List.append_assoc]
  exact halts (text' ++ back)

theorem Stops.after (writes : ∀ back, Writes back j text j') (stops : Stops j' text') :
    Stops j (text ++ text') := by
  obtain ⟨front, rest, j'', rfl, halts⟩ := stops
  refine ⟨text ++ front, rest, j'', (List.append_assoc _ _ _).symm, fun back => ?_⟩
  exact (writes (front ++ (rest ++ back))).halts (halts back)

theorem close_stops (h : j.Within (n + 1)) (closes : j.Closes kind) :
    Stops (j.enter kind) [kind.close] :=
  ⟨[kind.close], [], j, rfl, fun back => close_halts h closes ([] ++ back)⟩

theorem items_stop {items : JsonItems} (formed : items.Formed kind) (deep : j.Deep)
    (h : j.Within items.source.length) (stops : ¬ items.Passes j) : Stops j items.source := by
  induction items generalizing j kind with
  | nil => exact absurd trivial stops
  | scalar label token trail more ih =>
      obtain ⟨labelled, value, blanks, formed⟩ := formed
      have less := more_length label token trail more
      exact .after (labelled.clear.writes deep h) (.after (value.1.clear.writes deep h)
        (.after (blanks.clear.writes deep h) (.after (more.comma_clear.writes deep h)
          (ih formed deep (h.mono less) stops))))
  | nest label kind' space inner trail more ih ih' =>
      obtain ⟨labelled, blanks, formed, blanks', formed'⟩ := formed
      have less := inner_length label kind' space inner trail more
      obtain ⟨within, deep'⟩ := (h.mono less.1).enter kind'
      refine .after (labelled.clear.writes deep h) (.after (open_writes deep h)
        (.after (blanks.clear.writes deep' within) ?_))
      by_cases passes : inner.Passes (j.enter kind')
      · refine .after (items_write formed deep' within passes) ?_
        by_cases closes : j.Closes kind'
        · exact (close_stops (h.mono less.1) closes).append _
        · refine .after (close_writes (h.mono less.1) closes) (.after (blanks'.clear.writes deep h)
            (.after (more.comma_clear.writes deep h) ?_))
          exact ih' formed' deep (h.mono less.2) fun passes' => stops ⟨passes, closes, passes'⟩
      · exact (ih formed deep' within passes).append _

/-! ## What may be nested -/

def JsonItems.Scalars : JsonItems → Prop
  | .nil => True
  | .scalar _ _ _ more => more.Scalars
  | .nest .. => False

def JsonItems.Free (kind : JsonKind) : JsonItems → Prop
  | .nil => True
  | .scalar _ _ _ more => more.Free kind
  | .nest _ kind' _ inner _ more => kind' ≠ kind ∧ inner.Free kind ∧ more.Free kind

/-- No array stands inside of another, however deep. -/
def JsonItems.ArraysApart : JsonItems → Prop
  | .nil => True
  | .scalar _ _ _ more => more.ArraysApart
  | .nest _ .object _ inner _ more => inner.ArraysApart ∧ more.ArraysApart
  | .nest _ .array _ inner _ more => inner.Free .array ∧ more.ArraysApart

theorem passes_scalars (items : JsonItems) (closes : ∀ kind, j.Closes kind) :
    items.Passes j ↔ items.Scalars := by
  induction items with
  | nil => exact Iff.rfl
  | scalar _ _ _ _ ih => exact ih
  | nest _ kind _ _ _ _ _ _ => exact ⟨fun h => h.2.1 (closes kind), fun h => h.elim⟩

theorem passes_free (items : JsonItems) (h : j.Within items.source.length) (closes : j.Closes kind)
    (high : (kind = .array ∧ 1 < j.cblevel) ∨ (kind = .object ∧ 1 < j.sblevel)) :
    items.Passes j ↔ items.Free kind := by
  induction items generalizing j with
  | nil => exact Iff.rfl
  | scalar label token trail more ih =>
      exact ih (h.mono (more_length label token trail more)) closes high
  | nest label kind' space inner trail more ih ih' =>
      obtain ⟨less, less'⟩ := inner_length label kind' space inner trail more
      obtain ⟨within, deep⟩ := (h.mono less).enter kind'
      have later := ih' (h.mono less') closes high
      by_cases same : kind' = kind
      · subst same
        exact ⟨fun passes => absurd closes passes.2.1, fun free => absurd rfl free.1⟩
      · have room := (h.mono less).room
        have stays : ¬ j.Closes kind' := by
          rcases high with ⟨rfl, high⟩ | ⟨rfl, high⟩
          · cases kind' with
            | array => exact absurd rfl same
            | object => exact UInt8.not_le.mpr high
          · cases kind' with
            | object => exact absurd rfl same
            | array =>
                intro one
                rw [show j.sblevel = 1 from one] at high
                exact absurd high (by decide)
        have inside : inner.Passes (j.enter kind') ↔ inner.Free kind := by
          rcases high with ⟨rfl, high⟩ | ⟨rfl, high⟩
          · cases kind' with
            | array => exact absurd rfl same
            | object =>
                apply ih within closes (.inl ⟨rfl, ?_⟩)
                have less := UInt8.lt_iff_toNat_lt.mp high
                rw [UInt8.lt_iff_toNat_lt]
                change (1 : UInt8).toNat < (j.cblevel + 1).toNat
                rw [UInt8.toNat_add, UInt8.toNat_one] at *
                omega
          · cases kind' with
            | object => exact absurd rfl same
            | array =>
                apply ih within closes (.inr ⟨rfl, ?_⟩)
                have less := UInt8.lt_iff_toNat_lt.mp high
                rw [UInt8.lt_iff_toNat_lt]
                change (1 : UInt8).toNat < (j.sblevel + 1).toNat
                rw [UInt8.toNat_add, UInt8.toNat_one] at *
                omega
        exact ⟨fun passes => ⟨same, inside.mp passes.1, later.mp passes.2.2⟩,
          fun free => ⟨inside.mpr free.2.1, stays, later.mpr free.2.2⟩⟩

theorem passes_apart (items : JsonItems) (h : j.Within items.source.length) (high : 1 < j.cblevel)
    (square : j.sblevel = 0) : items.Passes j ↔ items.ArraysApart := by
  induction items generalizing j with
  | nil => exact Iff.rfl
  | scalar label token trail more ih =>
      exact ih (h.mono (more_length label token trail more)) high square
  | nest label kind' space inner trail more ih ih' =>
      obtain ⟨less, less'⟩ := inner_length label kind' space inner trail more
      obtain ⟨within, deep⟩ := (h.mono less).enter kind'
      have later := ih' (h.mono less') high square
      have room := (h.mono less).room
      cases kind' with
      | object =>
          have high' : 1 < (j.enter .object).cblevel := by
            have less := UInt8.lt_iff_toNat_lt.mp high
            rw [UInt8.lt_iff_toNat_lt]
            change (1 : UInt8).toNat < (j.cblevel + 1).toNat
            rw [UInt8.toNat_add, UInt8.toNat_one] at *
            omega
          have inside := ih within high' square
          exact ⟨fun passes => ⟨inside.mp passes.1, later.mp passes.2.2⟩,
            fun apart => ⟨inside.mpr apart.1, UInt8.not_le.mpr high, later.mpr apart.2⟩⟩
      | array =>
          have one : (j.enter .array).Closes .array := by
            change j.sblevel + 1 = 1
            rw [square]
            rfl
          have stays : ¬ j.Closes .array := by
            change ¬ j.sblevel = 1
            rw [square]
            decide
          have inside := passes_free inner within one (.inl ⟨rfl, high⟩)
          exact ⟨fun passes => ⟨inside.mp passes.1, later.mp passes.2.2⟩,
            fun apart => ⟨inside.mpr apart.1, stays, later.mpr apart.2⟩⟩

end AttoHTTP
