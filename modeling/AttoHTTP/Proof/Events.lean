import AttoHTTP.Library.EventStream
import AttoHTTP.Model.Server
import AttoHTTP.Proof.Output

namespace AttoHTTP
open Library

def eventText (event data : List UInt8) : List UInt8 :=
  eventField (ascii "event:") event ++ eventField (ascii "data:") data ++ [10]

theorem sendEvent_text (event data : List UInt8) (s : State) :
    s.Emits (wire (eventText event data)) (sendEvent event data s).state :=
  ⟨setBytes_adds _ s.writer, rfl, rfl, rfl, rfl⟩

def fieldBlock (name value : List UInt8) : List (List UInt8) :=
  if value = [] then [] else [name ++ value]

theorem eventField_parts {name value : List UInt8} (named : ∀ b ∈ name, endsLine b = false)
    (plain : ∀ b ∈ value, endsLine b = false) (rest : List UInt8) :
    parts [] false (eventField name value ++ rest) = fieldBlock name value ++ parts [] false rest := by
  cases value with
  | nil => rfl
  | cons b value =>
      have whole : ∀ c ∈ name ++ b :: value, endsLine c = false := by
        intro c member
        rcases List.mem_append.mp member with front | back
        · exact named c front
        · exact plain c back
      rw [eventField, if_pos (by simp), List.append_assoc, List.append_assoc, List.singleton_append,
        ← List.append_assoc, parts_line whole]
      rfl

theorem event_named : ∀ b ∈ ascii "event:", endsLine b = false := by decide

theorem data_named : ∀ b ∈ ascii "data:", endsLine b = false := by decide

def eventBlock (event data : List UInt8) : List (List UInt8) :=
  fieldBlock (ascii "event:") event ++ fieldBlock (ascii "data:") data

theorem eventText_parts {event data : List UInt8} (event_plain : ∀ b ∈ event, endsLine b = false)
    (data_plain : ∀ b ∈ data, endsLine b = false) :
    parts [] false (eventText event data) = eventBlock event data ++ [[], []] := by
  rw [eventText, List.append_assoc, eventField_parts event_named event_plain,
    eventField_parts data_named data_plain, eventBlock, List.append_assoc]
  rfl

theorem fieldBlock_other {drops : Bool} {name other : List UInt8} (value : List UInt8)
    (differ : ¬ other <+: name ++ value) :
    (fieldBlock name value).filterMap (fieldLine drops other) = [] := by
  unfold fieldBlock
  split
  · rfl
  · rw [List.filterMap_cons_none (by rw [fieldLine, if_neg differ])]
    rfl

theorem fieldBlock_own (drops : Bool) (name value : List UInt8) :
    (fieldBlock name value).filterMap (fieldLine drops name) =
      if value = [] then [] else [fieldText drops value] := by
  unfold fieldBlock
  split
  · rfl
  · rw [List.filterMap_cons_some (fieldLine_append drops name value)]
    rfl

theorem not_front {name text : List UInt8} (named : name ≠ []) (differ : text.head? ≠ name.head?) :
    ¬ name <+: text := by
  rintro ⟨rest, rfl⟩
  exact differ (List.head?_append_of_ne_nil name named)

theorem event_not_data (value : List UInt8) : ¬ ascii "data:" <+: ascii "event:" ++ value :=
  not_front (by decide) (by simp [ascii])

theorem data_not_event (value : List UInt8) : ¬ ascii "event:" <+: ascii "data:" ++ value :=
  not_front (by decide) (by simp [ascii])

theorem fieldText_nil (drops : Bool) : fieldText drops [] = [] := by simp [fieldText]

theorem eventBlock_name (drops : Bool) (event data : List UInt8) :
    eventName drops (eventBlock event data) = fieldText drops event := by
  rw [eventName, eventBlock, List.filterMap_append, fieldBlock_own,
    fieldBlock_other data (data_not_event data), List.append_nil]
  split
  · rename_i empty
    rw [empty, fieldText_nil]
    rfl
  · rfl

theorem eventBlock_data (drops : Bool) (event data : List UInt8) :
    eventData drops (eventBlock event data) = fieldText drops data := by
  rw [eventData, eventBlock, List.filterMap_append, fieldBlock_own,
    fieldBlock_other event (event_not_data event), List.nil_append]
  split
  · rename_i empty
    rw [empty, fieldText_nil]
    rfl
  · exact List.intercalate_singleton

theorem eventBlock_full (event data : List UInt8) : [] ∉ eventBlock event data := by
  intro member
  rcases List.mem_append.mp member with line | line <;> unfold fieldBlock at line <;> split at line
  · cases line
  · exact absurd (List.mem_singleton.mp line) (by simp [ascii])
  · cases line
  · exact absurd (List.mem_singleton.mp line) (by simp [ascii])

/-! ## What has arrived whole was plain -/

theorem oneEvent_event {drops : Bool} {event data : List UInt8}
    (one : OneEvent drops (eventText event data) event data) : ∀ b ∈ event, endsLine b = false := by
  obtain ⟨block, whole, -, name, -⟩ := one
  rw [← name]
  apply eventName_plain
  intro line member
  refine @parts_plain [] (by simp) false (eventText event data) line ?_
  rw [whole]
  exact List.mem_append_left _ member

theorem oneEvent_data {drops : Bool} {event data : List UInt8}
    (plain : ∀ b ∈ event, endsLine b = false)
    (one : OneEvent drops (eventText event data) event data) : ∀ b ∈ data, endsLine b = false := by
  cases data with
  | nil => simp
  | cons b data =>
      obtain ⟨block, whole, -, -, read⟩ := one
      rw [eventText, List.append_assoc, eventField_parts event_named plain] at whole
      have ends : ∃ lines, block = fieldBlock (ascii "event:") event ++ lines ∧
          parts [] false (eventField (ascii "data:") (b :: data) ++ [10]) = lines ++ [[], []] := by
        unfold fieldBlock at whole ⊢
        split at whole
        · rename_i empty
          rw [if_pos empty]
          exact ⟨block, rfl, whole⟩
        · rename_i some
          rw [if_neg some]
          cases block with
          | nil =>
              injection whole with first later
              exact absurd first (by simp [ascii])
          | cons line lines =>
              injection whole with first later
              exact ⟨lines, by rw [first]; rfl, later⟩
      obtain ⟨lines, rfl, rest⟩ := ends
      have same : eventData drops lines = b :: data := by
        rw [← read, eventData, eventData, List.filterMap_append,
          fieldBlock_other event (event_not_data event), List.nil_append]
      have long := @eventData_length drops lines (by rw [same]; simp)
      have room := parts_length [] false (eventField (ascii "data:") (b :: data) ++ [10])
      have name : (ascii "data:").countP (fun c => !endsLine c) = 5 := by decide
      rw [rest, eventField, if_pos (by simp)] at room
      simp only [List.map_append, List.sum_append, List.countP_append, name] at room
      have ends : [(10 : UInt8)].countP (fun c => !endsLine c) = 0 := by decide
      simp only [ends, List.map_cons, List.map_nil, List.sum_cons, List.sum_nil, List.length_nil] at room
      have bound := List.countP_le_length (p := fun c => !endsLine c) (l := b :: data)
      rw [same] at long
      have all : (b :: data).countP (fun c => !endsLine c) = (b :: data).length := by omega
      intro c member
      simpa using List.countP_eq_length.mp all c member

/-- An event arrives as it was given exactly when nothing in it ends a line, and nothing starts with
the space that the receiver drops, should it drop one. -/
theorem oneEvent_iff (drops : Bool) (event data : List UInt8) :
    OneEvent drops (eventText event data) event data ↔
      (∀ b ∈ event ++ data, b ≠ 10 ∧ b ≠ 13) ∧
        (drops = true → event.head? ≠ some 32 ∧ data.head? ≠ some 32) := by
  have kept {event data : List UInt8} (one : fieldText drops event = event ∧ fieldText drops data = data) :
      drops = true → event.head? ≠ some 32 ∧ data.head? ≠ some 32 := fun drop =>
    ⟨(fieldText_eq_iff drops event).mp one.1 drop, (fieldText_eq_iff drops data).mp one.2 drop⟩
  constructor
  · intro one
    have event_plain := oneEvent_event one
    have data_plain := oneEvent_data event_plain one
    refine ⟨fun b member => ?_, kept ?_⟩
    · rcases List.mem_append.mp member with front | back
      · exact endsLine_false.mp (event_plain b front)
      · exact endsLine_false.mp (data_plain b back)
    · obtain ⟨block, whole, -, name, read⟩ := one
      rw [eventText_parts event_plain data_plain] at whole
      rw [← List.append_cancel_right whole] at name read
      exact ⟨(eventBlock_name drops event data).symm.trans name,
        (eventBlock_data drops event data).symm.trans read⟩
  · rintro ⟨plain, spaces⟩
    have event_plain : ∀ b ∈ event, endsLine b = false := fun b member =>
      endsLine_false.mpr (plain b (List.mem_append_left _ member))
    have data_plain : ∀ b ∈ data, endsLine b = false := fun b member =>
      endsLine_false.mpr (plain b (List.mem_append_right _ member))
    refine ⟨eventBlock event data, eventText_parts event_plain data_plain, eventBlock_full event data,
      ?_, ?_⟩
    · rw [eventBlock_name]
      exact (fieldText_eq_iff drops event).mpr fun drop => (spaces drop).1
    · rw [eventBlock_data]
      exact (fieldText_eq_iff drops data).mpr fun drop => (spaces drop).2

/-- One call sends one event, in the words of the format, if the caller keeps line ends out. -/
theorem sendEvent_one_iff (drops : Bool) (event data : List UInt8) (s : State) :
    ∃ bytes, s.Emits (wire bytes) (sendEvent event data s).state ∧
      (OneEvent drops bytes event data ↔
        (∀ b ∈ event ++ data, b ≠ 10 ∧ b ≠ 13) ∧
          (drops = true → event.head? ≠ some 32 ∧ data.head? ≠ some 32)) :=
  ⟨eventText event data, sendEvent_text event data s, oneEvent_iff drops event data⟩

theorem sendEvent_lines :
    ∃ bytes, State.boot.Emits (wire bytes) (sendEvent [] (ascii "on\noff") State.boot).state ∧
      ¬ OneEvent false bytes [] (ascii "on\noff") := by
  refine ⟨eventText [] (ascii "on\noff"), sendEvent_text _ _ _, ?_⟩
  rw [oneEvent_iff]
  decide

end AttoHTTP
