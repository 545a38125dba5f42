import AttoHTTP.Proof.JsonArray
import AttoHTTP.Proof.JsonQuoted
import AttoHTTP.Proof.JsonTree

/-!
# Documents with nested values

A value with brackets ends the call at its last bracket or goes on to the comma behind it, depending
on the brackets; the next call does not expect a comma.
-/

namespace AttoHTTP
open Library Comp

/-! ## Members of a document -/

abbrev JsonPart := JsonLabel × List UInt8

def JsonItems.parts : JsonItems → List JsonPart
  | .nil => []
  | .scalar label token _ more => (label, token.content) :: more.parts
  | .nest label kind space inner _ more => (label, nestSource kind space inner) :: more.parts

/-- What goes through the buffer for the name. -/
def JsonLabel.named (value : List UInt8) : JsonLabel → List UInt8
  | .keyed _ key _ _ => key.content
  | .blank _ => value

def JsonPart.Fits (nl vl : UInt8) (m : JsonPart) : Prop :=
  (m.1.named m.2).length < nl.toNat ∧ m.2.length < vl.toNat

instance (nl vl : UInt8) (m : JsonPart) : Decidable (m.Fits nl vl) :=
  inferInstanceAs (Decidable (_ ∧ _))

def JsonSeen.Shows (y : JsonSeen) (m : JsonPart) : Prop :=
  y.ret = 1 ∧ y.value = m.2 ∧
    match m.1 with
    | .keyed _ key _ _ => y.name = key.content
    | .blank _ => True

/-- One call for every member, in order, and then one that returns 0. -/
def Enumerates (nl vl : UInt8) : List JsonPart → Reader → JsonState → Prop
  | [], r, j => ∃ y r' j', JsonCall nl vl r j y r' j' ∧ y.ret = 0
  | m :: ms, r, j => ∃ y r' j', JsonCall nl vl r j y r' j' ∧ y.Shows m ∧ Enumerates nl vl ms r' j'

/-- The brackets that are counted right in an object: its arrays hold scalars only, and an object is
the last member and holds no arrays in arrays. -/
def JsonItems.InObject : JsonItems → Prop
  | .nil => True
  | .scalar _ _ _ more => more.InObject
  | .nest _ .array _ inner _ more => inner.Scalars ∧ more.InObject
  | .nest _ .object _ inner _ more => inner.ArraysApart ∧ more = .nil

/-- In an array no string is empty, and a nested value is the last element: an array without
objects in it, or an object of scalars. -/
def JsonItems.InArray : JsonItems → Prop
  | .nil => True
  | .scalar _ token _ more => token.content ≠ [] ∧ more.InArray
  | .nest _ .array _ inner _ more => inner.Free .object ∧ more = .nil
  | .nest _ .object _ inner _ more => inner.Scalars ∧ more = .nil

/-! ## Nested values -/

variable {nl vl : UInt8} {tail : List GetByte} {e : GetByte} {r : Reader} {j : JsonState}
  {kind kind' : JsonKind} {space trail : List UInt8} {inner more items : JsonItems} {label : JsonLabel}

theorem lex_open_top {s : JsonScan} (json : s.json = j) (level : j.level = 1) :
    s.lex kind.open = ({ s with json := j.enter kind }, .char, .next) := by
  subst json
  have level' : s.json.level ≠ 0 := by
    rw [level]
    decide
  unfold JsonScan.lex
  cases kind with
  | object => simp [JsonKind.open, isSpace, level', nestJson, JsonState.enter]
  | array => simp [JsonKind.open, isSpace, level', nestJson, JsonState.enter]

theorem inner_writes (level : j.level = 1) (h : j.Within (inner.source.length + 1))
    (blanks : Blanks space) (formed : inner.Formed kind') (passes : inner.Passes (j.enter kind))
    (back : List UInt8) :
    Writes back j (kind.open :: (space ++ inner.source)) (j.enter kind) := by
  obtain ⟨within, deep⟩ := h.enter kind
  have first (back : List UInt8) : Writes back j [kind.open] (j.enter kind) :=
    char_writes (by cases kind <;> decide) fun _ json => lex_open_top json level
  exact (first _).append ((blanks.clear.writes deep within _).append
    (items_write formed deep within passes back))

theorem nestSource_eq (kind : JsonKind) (space : List UInt8) (inner : JsonItems) :
    nestSource kind space inner = (kind.open :: (space ++ inner.source)) ++ [kind.close] := by
  simp [nestSource]

theorem nest_writes (level : j.level = 1) (h : j.Within (inner.source.length + 1))
    (blanks : Blanks space) (formed : inner.Formed kind') (passes : inner.Passes (j.enter kind))
    (stays : ¬ j.Closes kind) (back : List UInt8) :
    Writes back j (nestSource kind space inner) j := by
  rw [nestSource_eq]
  exact (inner_writes level h blanks formed passes _).append (close_writes h stays back)

theorem nest_halts (level : j.level = 1) (h : j.Within (inner.source.length + 1))
    (blanks : Blanks space) (formed : inner.Formed kind') (passes : inner.Passes (j.enter kind))
    (closes : j.Closes kind) (back : List UInt8) :
    Halts back j (nestSource kind space inner) j := by
  rw [nestSource_eq]
  exact (inner_writes level h blanks formed passes _).halts (close_halts h closes back)

theorem nest_cut (level : j.level = 1) (h : j.Within (inner.source.length + 1))
    (blanks : Blanks space) (formed : inner.Formed kind') (stops : ¬ inner.Passes (j.enter kind)) :
    ∃ front rest j', nestSource kind space inner = (kind.open :: front) ++ rest ∧ rest ≠ [] ∧
      ∀ back, Halts (rest ++ back) j (kind.open :: front) j' := by
  obtain ⟨within, deep⟩ := h.enter kind
  have first (back : List UInt8) : Writes back j [kind.open] (j.enter kind) :=
    char_writes (by cases kind <;> decide) fun _ json => lex_open_top json level
  obtain ⟨front, rest, j', split, halts⟩ := Stops.after (blanks.clear.writes deep within)
    (items_stop formed deep within stops)
  refine ⟨front, rest ++ [kind.close], j', ?_, by simp, fun back => ?_⟩
  · rw [nestSource_eq, split, List.cons_append, List.cons_append, List.append_assoc]
  · rw [List.append_assoc]
    exact (first _).halts (halts ([kind.close] ++ back))

theorem JsonItems.Formed.nonzero (formed : items.Formed kind) : ∀ b ∈ items.source, b ≠ 0 := by
  have closed (text text' : List UInt8) (h : ∀ b ∈ text, b ≠ 0) (h' : ∀ b ∈ text', b ≠ 0) :
      ∀ b ∈ text ++ text', b ≠ 0 := by
    intro b member
    cases List.mem_append.mp member with
    | inl first => exact h b first
    | inr second => exact h' b second
  have clear {text : List UInt8} (h : Clear text) : ∀ b ∈ text, b ≠ 0 := fun b member => (h b member).1
  have bracket (kind : JsonKind) : (∀ b ∈ [kind.open], b ≠ 0) ∧ ∀ b ∈ [kind.close], b ≠ 0 := by
    cases kind with
    | object => exact ⟨by decide, by decide⟩
    | array => exact ⟨by decide, by decide⟩
  induction items generalizing kind with
  | nil => exact fun b member => nomatch member
  | scalar label token trail more ih =>
      obtain ⟨labelled, value, blanks, formed⟩ := formed
      exact closed _ _ (clear labelled.clear) (closed _ _ (clear value.1.clear)
        (closed _ _ (clear blanks.clear) (closed _ _ (clear more.comma_clear) (ih formed))))
  | nest label kind' space inner trail more ih ih' =>
      obtain ⟨labelled, blanks, formed, blanks', formed'⟩ := formed
      exact closed _ _ (clear labelled.clear) (closed [kind'.open] _ (bracket kind').1
        (closed _ _ (clear blanks.clear) (closed _ _ (ih formed) (closed [kind'.close] _
          (bracket kind').2 (closed _ _ (clear blanks'.clear) (closed _ _ (clear more.comma_clear)
            (ih' formed')))))))

/-! ## Objects -/

variable {text rest left body after : List UInt8} {scan : JsonScan}

theorem stored_call {key kept : List UInt8} (nonzero : ∀ b ∈ key, b ≠ 0)
    (nonzero' : ∀ b ∈ kept, b ≠ 0) (valued : 0 < vl) (comes : Comes body tail e r)
    (run : (JsonView.start nl vl j).run body =
      ({ (keyView nl vl (curlyJson 1) key).stores kept with scan := scan }, some left)) :
    ∃ r', Comes left tail e r' ∧
      JsonCall nl vl r j ⟨1, key.take (nl.toNat - 1), kept.take (vl.toNat - 1)⟩ r' scan.json := by
  obtain ⟨n, -, stored⟩ := stores_value (v := keyView nl vl (curlyJson 1) key) rfl valued kept
  rw [stored] at run
  exact keyed_call nonzero nonzero' comes run

theorem label_run {lead gap : List UInt8} {key : JsonToken}
    (formed : (JsonLabel.keyed lead key gap space).Formed .object) (named : 0 < nl)
    (valued : 0 < vl) (rest : List UInt8) :
    (JsonView.start nl vl (curlyJson 1)).run ((JsonLabel.keyed lead key gap space).source ++ rest) =
      (keyView nl vl (curlyJson 1) key.content).run rest := by
  obtain ⟨blanks, keyed, blanks', blanks''⟩ := formed
  have quiet : JsonScan.Quiet ⟨0, 0, curlyJson 1⟩ := ⟨rfl, rfl⟩
  have level : (curlyJson 1).level ≤ 1 := by decide
  simp only [JsonLabel.source, List.append_assoc, List.cons_append]
  rw [run_blanks (v := .start nl vl (curlyJson 1)) blanks quiet level valued,
    key_run keyed.1 keyed.2 blanks' named valued rfl rfl,
    run_blanks (v := keyView nl vl (curlyJson 1) key.content) blanks'' quiet level valued]

theorem enumerates_cons_iff {y : JsonSeen} {r' : Reader} {j' : JsonState} {m : JsonPart}
    {ms : List JsonPart} (call : JsonCall nl vl r j y r' j') (shows : y.Shows m) :
    Enumerates nl vl (m :: ms) r j ↔ Enumerates nl vl ms r' j' := by
  constructor
  · rintro ⟨y', r'', j'', call', -, rest⟩
    obtain ⟨-, rfl, rfl⟩ := call.unique call'
    exact rest
  · exact fun rest => ⟨y, r', j', call, shows, rest⟩

theorem not_enumerates {y : JsonSeen} {r' : Reader} {j' : JsonState} {m : JsonPart}
    {ms : List JsonPart} (call : JsonCall nl vl r j y r' j') (wrong : ¬ y.Shows m) :
    ¬ Enumerates nl vl (m :: ms) r j := by
  rintro ⟨y', r'', j'', call', shows, -⟩
  obtain ⟨rfl, -⟩ := call.unique call'
  exact wrong shows

theorem nest_short {n : Nat} (fits : (nestSource kind space inner).length < n) :
    inner.source.length + 1 < n := by
  simp only [nestSource, List.length_cons, List.length_append] at fits
  omega

theorem JsonItems.Formed.nestSource_nonzero (blanks : Blanks space) (formed : inner.Formed kind') :
    ∀ b ∈ nestSource kind space inner, b ≠ 0 := by
  intro b member
  rw [nestSource_eq, List.mem_append, List.mem_cons, List.mem_append, List.mem_singleton] at member
  rcases member with (rfl | blank | item) | rfl
  · cases kind <;> decide
  · exact (blanks.clear b blank).1
  · exact formed.nonzero b item
  · cases kind <;> decide

def JsonItems.level : JsonItems → UInt8
  | .nil => 0
  | _ => 1

theorem separates_more (more : JsonItems) (after : List UInt8) :
    Separates (more.comma ++ (more.source ++ 125 :: after)) (more.source ++ 125 :: after) more.level := by
  cases more with
  | nil => exact separates_brace after
  | scalar => exact separates_comma (by simp)
  | nest => exact separates_comma (by simp)

theorem JsonItems.level_le (more : JsonItems) : more.level ≤ 1 := by
  cases more with
  | nil => exact (by decide : (0 : UInt8) ≤ 1)
  | scalar => exact UInt8.le_refl 1
  | nest => exact UInt8.le_refl 1

theorem JsonItems.level_some (more : JsonItems) : more = .nil ∨ more.level = 1 := by
  cases more with
  | nil => exact .inl rfl
  | scalar => exact .inr rfl
  | nest => exact .inr rfl

theorem curly_within {n : Nat} (small : n < 255) : (curlyJson 1).Within n :=
  ⟨by change 1 + 0 + n < 256; omega, .inl ⟨rfl, by decide⟩⟩

theorem stray_call (blanks : Blanks trail) (named : 0 < nl) (valued : 0 < vl)
    (comes : Comes (trail ++ 44 :: rest) tail e r) :
    ∃ r' j', JsonCall nl vl r (curlyJson 1) ⟨0, [], []⟩ r' j' := by
  have level : (curlyJson 1).level ≤ 1 := by decide
  have run : (JsonView.start nl vl (curlyJson 1)).run (trail ++ 44 :: rest) =
      (JsonView.start nl vl (curlyJson 1), some rest) := by
    rw [run_blanks (v := .start nl vl (curlyJson 1)) blanks ⟨rfl, rfl⟩ level valued]
    exact comma_run rfl rest
  obtain ⟨r', -, call⟩ := jsonCall_keyed comes run (fun none => nomatch none) (.inr rfl)
    (by simp [JsonView.start]) (Nat.zero_le _) (Nat.zero_le _)
    (if_neg (UInt8.pos_iff_ne_zero.mp named))
  exact ⟨r', _, call⟩

section members
variable {lead gap : List UInt8} {key : JsonToken}

theorem take_ne {whole front back : List UInt8} {n : Nat} (split : whole = front ++ back)
    (more : back ≠ []) : front.take n ≠ whole := by
  intro same
  have lengths := congrArg List.length same
  have some := List.length_pos_of_ne_nil more
  have short := List.length_take_le' n front
  rw [split, List.length_append] at lengths
  omega

def AtValue (nl vl : UInt8) (j : JsonState) (body : List UInt8) (key : JsonToken)
    (text : List UInt8) : Prop :=
  (JsonView.start nl vl j).run body = (keyView nl vl (curlyJson 1) key.content).run text

theorem written_call (keyed : key.Flat) (named : key.content.length < nl.toNat)
    (fits : (nestSource kind space inner).length < vl.toNat)
    (nonzero : ∀ b ∈ nestSource kind space inner, b ≠ 0) (blanks : Blanks trail) {sep : List UInt8}
    {level : UInt8} (separates : Separates sep left level) (comes : Comes body tail e r)
    (same : AtValue nl vl j body key (nestSource kind space inner ++ (trail ++ sep)))
    (writes : ∀ back, Writes back (curlyJson 1) (nestSource kind space inner) (curlyJson 1)) :
    ∃ r', Comes left tail e r' ∧
      JsonCall nl vl r j ⟨1, key.content, nestSource kind space inner⟩ r' (curlyJson level) := by
  have valued : 0 < vl := UInt8.lt_iff_toNat_lt.mpr (Nat.zero_lt_of_lt fits)
  have room := stores_valueLen (keyView nl vl (curlyJson 1) key.content)
    (nestSource kind space inner) valued
  have level' : (curlyJson 1).level ≤ 1 := by decide
  have run :=
    calc (keyView nl vl (curlyJson 1) key.content).run (nestSource kind space inner ++ (trail ++ sep))
      _ = JsonView.run { (keyView nl vl (curlyJson 1) key.content).stores (nestSource kind space inner)
            with scan := ⟨0, 0, curlyJson 1⟩ } (trail ++ sep) := writes (trail ++ sep) _ rfl valued
      _ = JsonView.run { (keyView nl vl (curlyJson 1) key.content).stores (nestSource kind space inner)
            with scan := ⟨0, 0, curlyJson 1⟩ } sep := run_blanks blanks ⟨rfl, rfl⟩ level' room
      _ = _ := separates.run _ rfl
  obtain ⟨r', comes', call⟩ := stored_call keyed.nonzero nonzero valued comes (same.trans run)
  rw [List.take_of_length_le (Nat.le_sub_one_of_lt named),
    List.take_of_length_le (Nat.le_sub_one_of_lt fits)] at call
  exact ⟨r', comes', call⟩

theorem halted_call (keyed : key.Flat) (named : key.content.length < nl.toNat)
    (fits : (nestSource kind space inner).length < vl.toNat)
    (nonzero : ∀ b ∈ nestSource kind space inner, b ≠ 0) (comes : Comes body tail e r)
    (same : AtValue nl vl j body key (nestSource kind space inner ++ rest))
    (halts : ∀ back, Halts back (curlyJson 1) (nestSource kind space inner) (curlyJson 1)) :
    ∃ r', Comes rest tail e r' ∧
      JsonCall nl vl r j ⟨1, key.content, nestSource kind space inner⟩ r' (curlyJson 1) := by
  have valued : 0 < vl := UInt8.lt_iff_toNat_lt.mpr (Nat.zero_lt_of_lt fits)
  obtain ⟨r', comes', call⟩ := stored_call keyed.nonzero nonzero valued comes
    (same.trans (halts rest (keyView nl vl (curlyJson 1) key.content) rfl valued))
  rw [List.take_of_length_le (Nat.le_sub_one_of_lt named),
    List.take_of_length_le (Nat.le_sub_one_of_lt fits)] at call
  exact ⟨r', comes', call⟩

theorem cut_call (keyed : key.Flat) (valued : 0 < vl)
    (nonzero : ∀ b ∈ nestSource kind space inner, b ≠ 0) (comes : Comes body tail e r)
    (same : AtValue nl vl j body key (nestSource kind space inner ++ rest))
    (cut : ∃ front back j', nestSource kind space inner = (kind.open :: front) ++ back ∧ back ≠ [] ∧
      ∀ back', Halts (back ++ back') (curlyJson 1) (kind.open :: front) j') :
    ∃ y r' j', JsonCall nl vl r j y r' j' ∧ y.value ≠ nestSource kind space inner := by
  obtain ⟨front, back, j', split, more, halts⟩ := cut
  have run := halts rest (keyView nl vl (curlyJson 1) key.content) rfl valued
  rw [← List.append_assoc, ← split] at run
  obtain ⟨r', -, call⟩ := stored_call keyed.nonzero
    (fun b member => nonzero b (by rw [split]; exact List.mem_append_left _ member)) valued comes
    (same.trans run)
  refine ⟨_, r', _, call, fun whole => ?_⟩
  exact take_ne split more whole

end members

theorem after_object (blanks : Blanks trail) (named : 0 < nl) (valued : 0 < vl)
    (comes : Comes (trail ++ (more.comma ++ (more.source ++ 125 :: after))) tail e r) :
    Enumerates nl vl more.parts r (curlyJson 1) ↔ more = .nil := by
  have stray (comma : more.comma = [44]) {m : JsonPart} {ms : List JsonPart} :
      ¬ Enumerates nl vl (m :: ms) r (curlyJson 1) := by
    rw [comma] at comes
    obtain ⟨r', j', call⟩ := stray_call blanks named valued comes
    exact not_enumerates call fun shows => absurd shows.1 (by decide)
  cases more with
  | nil =>
      have level : (curlyJson 1).level ≤ 1 := by decide
      obtain ⟨r', -, call⟩ := close_call comes
        (run_blanks (v := .start nl vl (curlyJson 1)) blanks ⟨rfl, rfl⟩ level valued) (by decide) named
      exact ⟨fun _ => rfl, fun _ => ⟨_, r', _, call, rfl⟩⟩
  | scalar => exact ⟨fun h => absurd h (stray rfl), fun h => nomatch h⟩
  | nest => exact ⟨fun h => absurd h (stray rfl), fun h => nomatch h⟩

theorem inObject_array (label : JsonLabel) :
    (JsonItems.nest label .array space inner trail more).InObject ↔
      inner.Passes ((curlyJson 1).enter .array) ∧ more.InObject := by
  have closes (kind : JsonKind) : ((curlyJson 1).enter .array).Closes kind := by
    cases kind with
    | object => exact (by decide : (1 : UInt8) ≤ 1)
    | array => exact (by decide : (0 + 1 : UInt8) = 1)
  rw [passes_scalars inner closes]
  exact Iff.rfl

theorem inObject_object (label : JsonLabel) (h : ((curlyJson 1).enter .object).Within inner.source.length) :
    (JsonItems.nest label .object space inner trail more).InObject ↔
      inner.Passes ((curlyJson 1).enter .object) ∧ more = .nil := by
  rw [passes_apart inner h (by decide : (1 : UInt8) < 1 + 1) rfl]
  exact Iff.rfl

theorem object_enumerates {level : UInt8} (formed : items.Formed .object)
    (fits : ∀ m ∈ items.parts, m.Fits nl vl) (named : 0 < nl) (valued : 0 < vl)
    (comes : Comes body tail e r) (low : level ≤ 1) (here : items = .nil ∨ level = 1)
    (same : (JsonView.start nl vl j).run body =
      (JsonView.start nl vl (curlyJson level)).run (items.source ++ 125 :: after)) :
    Enumerates nl vl items.parts r j ↔ items.InObject := by
  induction items generalizing r j body level with
  | nil =>
      obtain ⟨r', -, call⟩ := close_call comes same low named
      exact ⟨fun _ => trivial, fun _ => ⟨_, r', _, call, rfl⟩⟩
  | scalar label token trail more ih =>
      obtain rfl : level = 1 := here.resolve_left (by simp)
      obtain ⟨labelled, value, blanks, formed⟩ := formed
      cases label with
      | blank lead => exact labelled.elim
      | keyed lead key gap space =>
          obtain ⟨room, room'⟩ : key.content.length < nl.toNat ∧ token.content.length < vl.toNat :=
            fits _ (List.mem_cons_self ..)
          have short : JsonMember.Short nl vl ⟨lead, key, gap, space, token, trail⟩ := ⟨room, room'⟩
          have flat : JsonMember.Flat ⟨lead, key, gap, space, token, trail⟩ :=
            ⟨labelled.1, labelled.2.2.1, labelled.2.2.2, blanks, labelled.2.1, value⟩
          have source : (JsonItems.scalar (.keyed lead key gap space) token trail more).source ++
              125 :: after = JsonMember.source ⟨lead, key, gap, space, token, trail⟩ ++
                (more.comma ++ (more.source ++ 125 :: after)) := by
            simp [JsonItems.source, JsonLabel.source, JsonMember.source]
          rw [source] at same
          obtain ⟨r', comes', call⟩ := member_call flat named valued comes same
            fun n _ => (separates_more more after).run _ rfl
          rw [JsonMember.seen, short.take_key, short.take_value] at call
          have later := ih formed (fun m member => fits m (List.mem_cons_of_mem _ member)) comes'
            more.level_le more.level_some rfl
          exact (enumerates_cons_iff call ⟨rfl, rfl, rfl⟩).trans later
  | nest label kind space inner trail more _ ih =>
      obtain rfl : level = 1 := here.resolve_left (by simp)
      obtain ⟨labelled, blanks, inside, blanks', formed⟩ := formed
      cases label with
      | blank lead => exact labelled.elim
      | keyed lead key gap space' =>
          obtain ⟨room, room'⟩ : key.content.length < nl.toNat ∧
            (nestSource kind space inner).length < vl.toNat := fits _ (List.mem_cons_self ..)
          have small : inner.source.length + 1 < 255 :=
            Nat.lt_of_lt_of_le (nest_short room') (Nat.le_of_lt_succ vl.toNat_lt)
          have within := curly_within small
          have nonzero : ∀ b ∈ nestSource kind space inner, b ≠ 0 :=
            JsonItems.Formed.nestSource_nonzero blanks inside
          have source : (JsonItems.nest (.keyed lead key gap space') kind space inner trail more).source ++
              125 :: after = (JsonLabel.keyed lead key gap space').source ++
                (nestSource kind space inner ++
                  (trail ++ (more.comma ++ (more.source ++ 125 :: after)))) := by
            simp [JsonItems.source, nestSource]
          rw [source, label_run labelled named valued] at same
          by_cases passes : inner.Passes ((curlyJson 1).enter kind)
          · cases kind with
            | array =>
                obtain ⟨r', comes', call⟩ := written_call labelled.2.1.1 room room' nonzero blanks'
                  (separates_more more after) comes same fun back => nest_writes (by decide) within
                    blanks inside passes (by decide : ¬ (0 : UInt8) = 1) back
                have later := ih formed (fun m member => fits m (List.mem_cons_of_mem _ member)) comes'
                  more.level_le more.level_some rfl
                rw [inObject_array, and_iff_right passes]
                exact (enumerates_cons_iff call ⟨rfl, rfl, rfl⟩).trans later
            | object =>
                obtain ⟨r', comes', call⟩ := halted_call labelled.2.1.1 room room' nonzero comes same
                  fun back => nest_halts (by decide) within blanks inside passes
                    (by decide : (1 : UInt8) ≤ 1) back
                rw [inObject_object _ (within.enter .object).1, and_iff_right passes]
                exact (enumerates_cons_iff call ⟨rfl, rfl, rfl⟩).trans
                  (after_object blanks' named valued comes')
          · obtain ⟨y, r', j', call, cut⟩ := cut_call labelled.2.1.1 valued nonzero comes same
              (nest_cut (by decide) within blanks inside passes)
            have wrong : ¬ y.Shows (.keyed lead key gap space', nestSource kind space inner) :=
              fun shows => cut shows.2.1
            refine iff_of_false (not_enumerates call wrong) fun good => passes ?_
            cases kind with
            | array => exact ((inObject_array _).mp good).1
            | object => exact ((inObject_object _ (within.enter .object).1).mp good).1

/-! ## Arrays -/

variable {k : UInt8}

theorem stored_element {kept : List UInt8} (nonzero : ∀ b ∈ kept, b ≠ 0) (some : kept ≠ [])
    (short : kept.length < nl.toNat) (digits : ∀ k : UInt8, (decimal k.toNat).length < nl.toNat)
    (comes : Comes body tail e r) (run : (JsonView.start nl vl j).run body =
      ({ (JsonView.start nl vl (squareJson 1 k)).stores kept with scan := scan }, Option.some left)) :
    ∃ r' name, Comes left tail e r' ∧ JsonCall nl vl r j ⟨1, name, kept.take vl.toNat⟩ r'
      { scan.json with counter := scan.json.counter + 1 } := by
  have named : 0 < nl := UInt8.lt_iff_toNat_lt.mpr (Nat.zero_lt_of_lt short)
  obtain ⟨n, -, stored⟩ := stores_name (v := .start nl vl (squareJson 1 k)) named kept
  have whole : kept.take (nl.toNat - 1) = kept :=
    List.take_of_length_le (Nat.le_sub_one_of_lt short)
  have stored' : (JsonView.start nl vl (squareJson 1 k)).stores kept =
      ⟨kept, n, [], vl, 0, 0, 0, squareJson 1 k⟩ := by
    rw [stored]
    change JsonView.mk ([] ++ kept.take (nl.toNat - 1)) n [] vl 0 ⟨0, 0, squareJson 1 k⟩ = _
    rw [whole, List.nil_append]
  rw [stored'] at run
  obtain ⟨r', comes', call⟩ := jsonCall_element comes run (fun none => nomatch none) rfl some nonzero
    (digits _)
  exact ⟨r', _, comes', call⟩

theorem square_within {n : Nat} (small : n < 255) (k : UInt8) : (squareJson 1 k).Within n :=
  ⟨by change 0 + 1 + n < 256; omega, .inr ⟨rfl, Nat.one_pos⟩⟩

theorem square_level (k : UInt8) : (squareJson 1 k).level = 1 := rfl

theorem square_closes (k : UInt8) (kind : JsonKind) : (squareJson 1 k).Closes kind := by
  cases kind with
  | object => exact (by decide : (0 : UInt8) ≤ 1)
  | array => exact (rfl : (1 : UInt8) = 1)

theorem inArray_nest (label : JsonLabel)
    (h : ((squareJson 1 k).enter kind).Within inner.source.length) :
    (JsonItems.nest label kind space inner trail more).InArray ↔
      inner.Passes ((squareJson 1 k).enter kind) ∧ more = .nil := by
  cases kind with
  | object =>
      have closes (kind : JsonKind) : ((squareJson 1 k).enter .object).Closes kind := by
        cases kind with
        | object => exact (by decide : (0 + 1 : UInt8) ≤ 1)
        | array => exact (rfl : (1 : UInt8) = 1)
      rw [passes_scalars inner closes]
      exact Iff.rfl
  | array =>
      have closes : ((squareJson 1 k).enter .array).Closes .object := (by decide : (0 : UInt8) ≤ 1)
      rw [passes_free inner h closes (.inr ⟨rfl, (by decide : (1 : UInt8) < 1 + 1)⟩)]
      exact Iff.rfl

theorem nothing_call (blanks : Blanks trail) (named : 0 < nl) (valued : 0 < vl) {c : UInt8}
    (ends : c = 44 ∨ c = 93) (comes : Comes (trail ++ c :: rest) tail e r) :
    ∃ r' j', JsonCall nl vl r (squareJson 1 k) ⟨0, [], []⟩ r' j' := by
  have level : (squareJson 1 k).level ≤ 1 := by
    rw [square_level]
    exact UInt8.le_refl 1
  have run : (JsonView.start nl vl (squareJson 1 k)).run (trail ++ c :: rest) =
      (JsonView.start nl vl (squareJson 1 k)).run (c :: rest) :=
    run_blanks (v := .start nl vl (squareJson 1 k)) blanks ⟨rfl, rfl⟩ level valued
  rcases ends with rfl | rfl
  · obtain ⟨r', -, call⟩ := empty_call comes (run.trans (elementComma_run rfl rest))
      (fun none => nomatch none) named
    exact ⟨r', _, call⟩
  · obtain ⟨r', -, call⟩ := empty_call comes (run.trans (bracket_run rfl rest))
      (fun none => nomatch none) named
    exact ⟨r', _, call⟩

theorem after_nest (blanks : Blanks trail) (named : 0 < nl) (valued : 0 < vl)
    (comes : Comes (trail ++ (more.comma ++ (more.source ++ 93 :: after))) tail e r) :
    Enumerates nl vl more.parts r (squareJson 1 k) ↔ more = .nil := by
  have stray (comma : more.comma = [44]) {m : JsonPart} {ms : List JsonPart} :
      ¬ Enumerates nl vl (m :: ms) r (squareJson 1 k) := by
    rw [comma] at comes
    obtain ⟨r', j', call⟩ := nothing_call blanks named valued (.inl rfl) comes
    exact not_enumerates call fun shows => absurd shows.1 (by decide)
  cases more with
  | nil =>
      obtain ⟨r', j', call⟩ := nothing_call (k := k) blanks named valued (.inr rfl) comes
      exact ⟨fun _ => rfl, fun _ => ⟨_, r', _, call, rfl⟩⟩
  | scalar => exact ⟨fun h => absurd h (stray rfl), fun h => nomatch h⟩
  | nest => exact ⟨fun h => absurd h (stray rfl), fun h => nomatch h⟩

theorem emptyElement_call {lead : List UInt8} {token : JsonToken} (blanks : Blanks lead)
    (flat : token.Flat) (empty : token.content = []) (blanks' : Blanks trail) (named : 0 < nl)
    (valued : 0 < vl) (comes : Comes body tail e r) (same : (JsonView.start nl vl j).run body =
      (JsonView.start nl vl (squareJson 1 k)).run
        (lead ++ (token.source ++ (trail ++ (more.comma ++ (more.source ++ 93 :: after)))))) :
    ∃ r' j', JsonCall nl vl r j ⟨0, [], []⟩ r' j' := by
  have level : (squareJson 1 k).level ≤ 1 := by
    rw [square_level]
    exact UInt8.le_refl 1
  have quiet : JsonScan.Quiet ⟨0, 0, squareJson 1 k⟩ := ⟨rfl, rfl⟩
  rw [run_blanks (v := .start nl vl (squareJson 1 k)) blanks quiet level valued,
    run_token (v := .start nl vl (squareJson 1 k)) flat
      (fun h => absurd h.1 (by decide : (0 : UInt8) ≠ 1)) quiet level valued, empty] at same
  change _ = (JsonView.start nl vl (squareJson 1 k)).run _ at same
  rw [run_blanks (v := .start nl vl (squareJson 1 k)) blanks' quiet level valued] at same
  have ends : ∃ l rest, (JsonView.start nl vl (squareJson 1 k)).run
      (more.comma ++ (more.source ++ 93 :: after)) =
        (JsonView.start nl vl (squareJson l k), Option.some rest) := by
    cases more with
    | nil => exact ⟨0, _, bracket_run rfl after⟩
    | scalar => exact ⟨1, _, elementComma_run rfl _⟩
    | nest => exact ⟨1, _, elementComma_run rfl _⟩
  obtain ⟨l, rest, ends⟩ := ends
  obtain ⟨r', -, call⟩ := empty_call comes (same.trans ends) (fun none => nomatch none) named
  exact ⟨r', _, call⟩

theorem array_enumerates (formed : items.Formed .array) (fits : ∀ m ∈ items.parts, m.Fits nl vl)
    (named : 0 < nl) (valued : 0 < vl) (digits : ∀ k : UInt8, (decimal k.toNat).length < nl.toNat)
    (blanks : Blanks after) (final : e.ret ≤ 0) (comes : Comes body [] e r)
    (same : (JsonView.start nl vl j).run body =
      (JsonView.start nl vl (squareJson 1 k)).run (items.source ++ 93 :: after)) :
    Enumerates nl vl items.parts r j ↔ items.InArray := by
  induction items generalizing r j body k with
  | nil =>
      obtain ⟨r', -, call⟩ := empty_call comes (same.trans (bracket_run rfl after))
        (fun none => nomatch none) named
      exact ⟨fun _ => trivial, fun _ => ⟨_, r', _, call, rfl⟩⟩
  | scalar label token trail more ih =>
      obtain ⟨labelled, value, blanks', formed⟩ := formed
      cases label with
      | keyed => exact labelled.elim
      | blank lead =>
          obtain ⟨room, room'⟩ : token.content.length < nl.toNat ∧ token.content.length < vl.toNat :=
            fits _ (List.mem_cons_self ..)
          by_cases empty : token.content = []
          · have source : (JsonItems.scalar (.blank lead) token trail more).source ++ 93 :: after =
                lead ++ (token.source ++ (trail ++ (more.comma ++ (more.source ++ 93 :: after)))) := by
              simp [JsonItems.source, JsonLabel.source]
            rw [source] at same
            obtain ⟨r', j', call⟩ :=
              emptyElement_call labelled value.1 empty blanks' named valued comes same
            exact iff_of_false (not_enumerates call fun shows => absurd shows.1 (by decide))
              fun good => good.1 empty
          · have flat : JsonElement.Flat ⟨lead, token, trail⟩ := ⟨labelled, value.1, empty, blanks'⟩
            have source : (JsonItems.scalar (.blank lead) token trail more).source ++ 93 :: after =
                JsonElement.source ⟨lead, token, trail⟩ ++
                  (more.comma ++ (more.source ++ 93 :: after)) := by
              simp [JsonItems.source, JsonLabel.source, JsonElement.source]
            rw [source] at same
            have good : (JsonItems.scalar (.blank lead) token trail more).InArray ↔ more.InArray :=
              and_iff_right empty
            rw [good]
            have short : JsonElement.Short nl vl ⟨lead, token, trail⟩ := ⟨room, room'⟩
            have later (m : JsonPart) (member : m ∈ more.parts) : m.Fits nl vl :=
              fits m (List.mem_cons_of_mem _ member)
            cases more with
            | nil =>
                obtain ⟨r', comes', call⟩ := element_call flat short (digits k) comes same
                  fun n => bracket_run rfl after
                obtain ⟨r'', last⟩ := after_call blanks (k + 1) named valued final comes'
                exact (enumerates_cons_iff call ⟨rfl, rfl, trivial⟩).trans
                  ⟨fun _ => trivial, fun _ => ⟨_, r'', _, last, rfl⟩⟩
            | scalar label' token' trail' more' =>
                obtain ⟨r', comes', call⟩ := element_call flat short (digits k) comes same
                  fun n => elementComma_run rfl _
                exact (enumerates_cons_iff call ⟨rfl, rfl, trivial⟩).trans (ih formed later comes' rfl)
            | nest label' kind' space' inner' trail' more' =>
                obtain ⟨r', comes', call⟩ := element_call flat short (digits k) comes same
                  fun n => elementComma_run rfl _
                exact (enumerates_cons_iff call ⟨rfl, rfl, trivial⟩).trans (ih formed later comes' rfl)
  | nest label kind space inner trail more _ _ =>
      obtain ⟨labelled, blanks', inside, blanks'', formed⟩ := formed
      cases label with
      | keyed => exact labelled.elim
      | blank lead =>
          obtain ⟨room, room'⟩ : (nestSource kind space inner).length < nl.toNat ∧
            (nestSource kind space inner).length < vl.toNat := fits _ (List.mem_cons_self ..)
          have small : inner.source.length + 1 < 255 :=
            Nat.lt_of_lt_of_le (nest_short room') (Nat.le_of_lt_succ vl.toNat_lt)
          have within := square_within small k
          have nonzero : ∀ b ∈ nestSource kind space inner, b ≠ 0 :=
            JsonItems.Formed.nestSource_nonzero blanks' inside
          have source : (JsonItems.nest (.blank lead) kind space inner trail more).source ++
              93 :: after = lead ++ (nestSource kind space inner ++
                (trail ++ (more.comma ++ (more.source ++ 93 :: after)))) := by
            simp [JsonItems.source, JsonLabel.source, nestSource]
          have level : (squareJson 1 k).level ≤ 1 := by
            rw [square_level]
            exact UInt8.le_refl 1
          rw [source, run_blanks (v := .start nl vl (squareJson 1 k)) labelled ⟨rfl, rfl⟩ level
            valued] at same
          rw [inArray_nest _ (within.enter kind).1]
          by_cases passes : inner.Passes ((squareJson 1 k).enter kind)
          · have run := nest_halts (square_level k) within blanks' inside passes (square_closes k kind)
              (trail ++ (more.comma ++ (more.source ++ 93 :: after))) (.start nl vl (squareJson 1 k))
              rfl valued
            obtain ⟨r', name, comes', call⟩ := stored_element nonzero (List.cons_ne_nil _ _) room digits
              comes (same.trans run)
            rw [List.take_of_length_le room'.le] at call
            rw [and_iff_right passes]
            exact (enumerates_cons_iff call ⟨rfl, rfl, trivial⟩).trans
              (after_nest blanks'' named valued comes')
          · obtain ⟨front, back, j', split, more', halts⟩ :=
              nest_cut (square_level k) within blanks' inside passes
            have run := halts (trail ++ (more.comma ++ (more.source ++ 93 :: after)))
              (.start nl vl (squareJson 1 k)) rfl valued
            rw [← List.append_assoc, ← split] at run
            have less : (kind.open :: front).length < nl.toNat := by
              rw [split, List.length_append] at room
              exact Nat.lt_of_le_of_lt (Nat.le_add_right _ _) room
            obtain ⟨r', name, -, call⟩ := stored_element
              (fun b member => nonzero b (by rw [split]; exact List.mem_append_left _ member))
              (List.cons_ne_nil _ _) less digits comes (same.trans run)
            exact iff_of_false (not_enumerates call fun shows => take_ne split more' shows.2.1)
              fun good => passes good.1

/-! ## Documents -/

structure JsonDocument where
  lead : List UInt8
  kind : JsonKind
  space : List UInt8
  items : JsonItems

def JsonDocument.source (d : JsonDocument) : List UInt8 :=
  d.lead ++ nestSource d.kind d.space d.items

structure JsonDocument.Formed (d : JsonDocument) : Prop where
  lead : Blanks d.lead
  space : Blanks d.space
  items : d.items.Formed d.kind

def JsonDocument.Readable (d : JsonDocument) : Prop :=
  match d.kind with
  | .object => d.items.InObject
  | .array => d.items.InArray

theorem objectDocument_enumerates {lead : List UInt8} (blanks : Blanks lead) (blanks' : Blanks space)
    (formed : items.Formed .object) (fits : ∀ m ∈ items.parts, m.Fits nl vl) (named : 0 < nl)
    (valued : 0 < vl)
    (comes : Comes (JsonDocument.source ⟨lead, .object, space, items⟩ ++ after) tail e r) :
    Enumerates nl vl items.parts r ⟨0, 0, 0, 0⟩ ↔ items.InObject := by
  have source : JsonDocument.source ⟨lead, .object, space, items⟩ ++ after =
      lead ++ 123 :: (space ++ (items.source ++ 125 :: after)) := by
    simp [JsonDocument.source, nestSource, JsonKind.open, JsonKind.close]
  rw [source] at comes
  exact object_enumerates formed fits named valued comes (UInt8.le_refl 1) (.inr rfl)
    (object_run blanks blanks' valued (items.source ++ 125 :: after))

theorem arrayDocument_enumerates {lead : List UInt8} (blanks : Blanks lead) (blanks' : Blanks space)
    (formed : items.Formed .array) (fits : ∀ m ∈ items.parts, m.Fits nl vl) (named : 0 < nl)
    (valued : 0 < vl) (digits : ∀ k : UInt8, (decimal k.toNat).length < nl.toNat)
    (blanks'' : Blanks after) (final : e.ret ≤ 0)
    (comes : Comes (JsonDocument.source ⟨lead, .array, space, items⟩ ++ after) [] e r) :
    Enumerates nl vl items.parts r ⟨0, 0, 0, 0⟩ ↔ items.InArray := by
  have source : JsonDocument.source ⟨lead, .array, space, items⟩ ++ after =
      lead ++ 91 :: (space ++ (items.source ++ 93 :: after)) := by
    simp [JsonDocument.source, nestSource, JsonKind.open, JsonKind.close]
  rw [source] at comes
  exact array_enumerates formed fits named valued digits blanks'' final comes
    (array_run blanks blanks' valued (items.source ++ 93 :: after))

/-- The members are read one by one exactly if the brackets are where the counters allow them. -/
theorem nested_enumerated_iff {d : JsonDocument} (formed : d.Formed)
    (fits : ∀ m ∈ d.items.parts, m.Fits nl vl) (valued : 0 < vl)
    (digits : ∀ k : UInt8, (decimal k.toNat).length < nl.toNat) (blanks : Blanks after)
    (final : e.ret ≤ 0) (comes : Comes (d.source ++ after) [] e r) :
    Enumerates nl vl d.items.parts r ⟨0, 0, 0, 0⟩ ↔ d.Readable := by
  have named : 0 < nl := UInt8.lt_iff_toNat_lt.mpr (Nat.zero_lt_of_lt (digits 0))
  obtain ⟨lead, kind, space, items⟩ := d
  cases kind with
  | object =>
      exact objectDocument_enumerates formed.lead formed.space formed.items fits named valued comes
  | array =>
      exact arrayDocument_enumerates formed.lead formed.space formed.items fits named valued digits
        blanks final comes

def lampDocument (more : JsonItems) : JsonDocument :=
  ⟨[], .object, [32], .nest (.keyed [] (.quoted .double (ascii "lamp")) [] [32]) .object []
    (.scalar (.keyed [] (.quoted .double (ascii "on")) [] []) (.bare (ascii "1")) [] .nil) [] more⟩

def fanMember : JsonItems :=
  .scalar (.keyed [32] (.quoted .double (ascii "fan")) [] []) (.bare (ascii "2")) [] .nil

theorem lampDocument_formed {more : JsonItems} (formed : more.Formed .object) :
    (lampDocument more).Formed := by
  have key : (JsonToken.quoted .double (ascii "lamp")).Flat ∧
      (JsonToken.quoted .double (ascii "on")).Flat :=
    ⟨(by decide : ∀ b ∈ ascii "lamp", b ≠ 0 ∧ b ≠ 34 ∧ b ∉ [44, 123, 125, 91, 93]),
      (by decide : ∀ b ∈ ascii "on", b ≠ 0 ∧ b ≠ 34 ∧ b ∉ [44, 123, 125, 91, 93])⟩
  have value : (JsonToken.bare (ascii "1")).Flat := ⟨by decide, by decide⟩
  have one : Blanks [32] := by simp [Blanks, isSpace]
  exact ⟨.nil, one, ⟨.nil, ⟨key.1, trivial⟩, .nil, one⟩, .nil,
    ⟨⟨.nil, ⟨key.2, trivial⟩, .nil, .nil⟩, ⟨value, (by decide : 58 ∉ ascii "1")⟩, .nil, trivial⟩,
    .nil, formed⟩

theorem fanMember_formed : fanMember.Formed .object := by
  exact ⟨⟨by simp [Blanks, isSpace],
    ⟨(by decide : ∀ b ∈ ascii "fan", b ≠ 0 ∧ b ≠ 34 ∧ b ∉ [44, 123, 125, 91, 93]), trivial⟩, .nil,
    .nil⟩, ⟨⟨by decide, by decide⟩, (by decide : 58 ∉ ascii "2")⟩, .nil, trivial⟩

theorem decimal_few : ∀ k : UInt8, (decimal k.toNat).length < 8 := by
  intro k
  exact decimal_short k.toNat (Nat.lt_succ_of_lt k.toNat_lt)

theorem nested_enumerated_lamp :
    Enumerates 8 32 (lampDocument .nil).items.parts (textReader ((lampDocument .nil).source ++ [10]))
      ⟨0, 0, 0, 0⟩ ↔ (lampDocument .nil).Readable :=
  nested_enumerated_iff (lampDocument_formed trivial) (by decide) (by decide) decimal_few
    (show Blanks [10] by simp [Blanks, isSpace]) (by decide) (textReader_comes _)

theorem nested_stops : ¬ Enumerates 8 32 (lampDocument fanMember).items.parts
    (textReader ((lampDocument fanMember).source ++ [])) ⟨0, 0, 0, 0⟩ := by
  have formed := lampDocument_formed fanMember_formed
  intro enumerates
  have readable := (objectDocument_enumerates formed.lead formed.space formed.items (by decide)
    (by decide) (by decide) (textReader_comes _)).mp enumerates
  cases readable.2

end AttoHTTP
