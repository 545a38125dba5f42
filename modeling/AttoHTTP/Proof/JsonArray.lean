import AttoHTTP.Proof.JsonFlat

namespace AttoHTTP
open Library Comp

structure JsonElement where
  lead : List UInt8
  token : JsonToken
  trail : List UInt8

def JsonElement.source (m : JsonElement) : List UInt8 := m.lead ++ (m.token.source ++ m.trail)

structure JsonElement.Flat (m : JsonElement) : Prop where
  lead : Blanks m.lead
  token : m.token.Flat
  content : m.token.content ≠ []
  trail : Blanks m.trail

def elementsSource : List JsonElement → List UInt8
  | [] => []
  | [m] => m.source
  | m :: ms => m.source ++ 44 :: elementsSource ms

structure JsonArray where
  lead : List UInt8
  space : List UInt8
  elements : List JsonElement

def JsonArray.source (a : JsonArray) : List UInt8 :=
  a.lead ++ 91 :: (a.space ++ (elementsSource a.elements ++ [93]))

structure JsonArray.Flat (a : JsonArray) : Prop where
  lead : Blanks a.lead
  space : Blanks a.space
  elements : ∀ m ∈ a.elements, m.Flat

variable {nl vl : UInt8} {tail : List GetByte} {e : GetByte} {r : Reader} {j : JsonState}

def squareJson (level counter : UInt8) : JsonState := ⟨0, level, 91, counter⟩

theorem array_run {lead space : List UInt8} (blanks : Blanks lead) (blanks' : Blanks space)
    (valued : 0 < vl) (rest : List UInt8) :
    (JsonView.start nl vl ⟨0, 0, 0, 0⟩).run (lead ++ 91 :: (space ++ rest)) =
      (JsonView.start nl vl (squareJson 1 0)).run rest := by
  have quiet (j : JsonState) : JsonScan.Quiet ⟨0, 0, j⟩ := ⟨rfl, rfl⟩
  have lex : (JsonView.start nl vl ⟨0, 0, 0, 0⟩).scan.lex 91 =
      (⟨0, 0, squareJson 1 0⟩, .skip, .next) := lex_bracket (s := ⟨0, 0, 0, 0, 0, 0⟩) rfl
  have opened : (JsonView.start nl vl ⟨0, 0, 0, 0⟩).feed 91 = .start nl vl (squareJson 1 0) :=
    feed_skip lex
  have level : JsonState.level ⟨0, 0, 0, 0⟩ ≤ 1 := by decide
  have level' : (squareJson 1 0).level ≤ 1 := by decide
  rw [run_blanks (v := .start nl vl ⟨0, 0, 0, 0⟩) blanks (quiet _) level valued,
    run_next (by decide) lex valued, opened,
    run_blanks (v := .start nl vl (squareJson 1 0)) blanks' (quiet _) level' valued]

def elementView (nl vl : UInt8) (k n : UInt8) (content : List UInt8) : JsonView :=
  ⟨content.take (nl.toNat - 1), n, [], vl, 0, 0, 0, squareJson 1 k⟩

theorem element_run {m : JsonElement} (flat : m.Flat) (named : 0 < nl) (valued : 0 < vl) (k : UInt8)
    (rest : List UInt8) : ∃ n, (JsonView.start nl vl (squareJson 1 k)).run (m.source ++ rest) =
      (elementView nl vl k n m.token.content).run rest := by
  have quiet : JsonScan.Quiet ⟨0, 0, squareJson 1 k⟩ := ⟨rfl, rfl⟩
  have level : (squareJson 1 k).level ≤ 1 := by
    change (0 + 1 : UInt8) ≤ 1
    decide
  obtain ⟨n, -, stored⟩ := stores_name (v := .start nl vl (squareJson 1 k)) named m.token.content
  have stored' : (JsonView.start nl vl (squareJson 1 k)).stores m.token.content =
      elementView nl vl k n m.token.content := stored
  refine ⟨n, ?_⟩
  simp only [JsonElement.source, List.append_assoc]
  rw [run_blanks (v := .start nl vl (squareJson 1 k)) flat.lead quiet level valued,
    run_token (v := .start nl vl (squareJson 1 k)) flat.token
      (fun h => absurd h.1 (by decide : (0 : UInt8) ≠ 1)) quiet level
      valued, stored', run_blanks (v := elementView nl vl k n m.token.content) flat.trail quiet level valued]

theorem elementComma_run {v : JsonView} {k : UInt8} (scan : v.scan = ⟨0, 0, squareJson 1 k⟩)
    (rest : List UInt8) : v.run (44 :: rest) = (v, some rest) := by
  have lex : v.scan.lex 44 = (v.scan, .skip, .stop) := by
    rw [scan]
    exact lex_comma (s := ⟨0, 0, squareJson 1 k⟩) rfl
  rw [run_stop (by decide) lex, feed_skip lex]

theorem bracket_run {v : JsonView} {k : UInt8} (scan : v.scan = ⟨0, 0, squareJson 1 k⟩)
    (rest : List UInt8) :
    v.run (93 :: rest) = ({ v with scan := ⟨0, 0, squareJson 0 k⟩ }, some rest) := by
  have lex : v.scan.lex 93 = (⟨0, 0, squareJson 0 k⟩, .skip, .stop) := by
    have lex := lex_unbracket (s := ⟨0, 0, squareJson 1 k⟩) rfl rfl
    rw [scan, lex]
    simp [squareJson]
  rw [run_stop (by decide) lex, feed_skip lex]

/-! ## Calls -/

structure JsonElement.Short (nl vl : UInt8) (m : JsonElement) : Prop where
  name : m.token.content.length < nl.toNat
  value : m.token.content.length < vl.toNat

theorem element_call {m : JsonElement} (flat : m.Flat) (short : m.Short nl vl) {k level : UInt8}
    (digits : (decimal k.toNat).length < nl.toNat) {text rest left' : List UInt8}
    (left : Comes text tail e r)
    (same : (JsonView.start nl vl j).run text =
      (JsonView.start nl vl (squareJson 1 k)).run (m.source ++ rest))
    (ends : ∀ n, (elementView nl vl k n m.token.content).run rest =
      ({ elementView nl vl k n m.token.content with scan := ⟨0, 0, squareJson level k⟩ },
        some left')) :
    ∃ r', Comes left' tail e r' ∧ JsonCall nl vl r j ⟨1, decimal k.toNat, m.token.content⟩ r'
      (squareJson level (k + 1)) := by
  have named : 0 < nl := UInt8.lt_iff_toNat_lt.mpr (Nat.zero_lt_of_lt short.name)
  have valued : 0 < vl := UInt8.lt_iff_toNat_lt.mpr (Nat.zero_lt_of_lt short.value)
  obtain ⟨n, element⟩ := element_run flat named valued k rest
  have whole : m.token.content.take (nl.toNat - 1) = m.token.content :=
    List.take_of_length_le (Nat.le_sub_one_of_lt short.name)
  have whole' : m.token.content.take vl.toNat = m.token.content :=
    List.take_of_length_le short.value.le
  rw [element, ends n, elementView, whole] at same
  obtain ⟨r', left'', call⟩ := jsonCall_element left same (fun none => nomatch none) rfl flat.content
    flat.token.nonzero digits
  change JsonCall _ _ _ _ ⟨1, decimal k.toNat, m.token.content.take vl.toNat⟩ _
    (squareJson level (k + 1)) at call
  rw [whole'] at call
  exact ⟨r', left'', call⟩

theorem empty_call {text : List UInt8} {level k : UInt8} {rest : Option (List UInt8)}
    (left : Comes text tail e r)
    (run : (JsonView.start nl vl j).run text =
      (JsonView.start nl vl (squareJson level k), rest))
    (ends : rest = none → tail = [] ∧ e.ret ≤ 0) (named : 0 < nl) :
    ∃ r', Comes (rest.getD []) tail e r' ∧ JsonCall nl vl r j ⟨0, [], []⟩ r' (squareJson level k) :=
  jsonCall_keyed left run ends (.inr rfl) (by simp [JsonView.start]) (Nat.zero_le _)
    (Nat.zero_le _) (if_neg (UInt8.pos_iff_ne_zero.mp named))

theorem after_call {after : List UInt8} (blanks : Blanks after) (k : UInt8) (named : 0 < nl)
    (valued : 0 < vl) (final : e.ret ≤ 0) (left : Comes after [] e r) :
    ∃ r', JsonCall nl vl r (squareJson 0 k) ⟨0, [], []⟩ r' (squareJson 0 k) := by
  have level : (squareJson 0 k).level ≤ 1 := by
    change (0 + 0 : UInt8) ≤ 1
    decide
  have run : (JsonView.start nl vl (squareJson 0 k)).run after =
      (JsonView.start nl vl (squareJson 0 k), none) := by
    rw [← List.append_nil after,
      run_blanks (v := .start nl vl (squareJson 0 k)) blanks ⟨rfl, rfl⟩ level valued]
    rfl
  obtain ⟨r', -, call⟩ := empty_call left run (fun _ => ⟨rfl, final⟩) named
  exact ⟨r', call⟩

/-- What the calls for these elements return, the first being named by `k`. -/
def elementsSeen (k : Nat) (ms : List JsonElement) : List JsonSeen :=
  ms.mapIdx fun i m => ⟨1, decimal ((k + i) % 256), m.token.content⟩

theorem elementsSeen_cons (k : Nat) (m : JsonElement) (ms : List JsonElement) :
    elementsSeen k (m :: ms) =
      ⟨1, decimal (k % 256), m.token.content⟩ :: elementsSeen (k + 1) ms := by
  simp [elementsSeen, List.mapIdx_cons, Nat.add_assoc, Nat.add_comm 1]

theorem elements_calls {ms : List JsonElement} (flat : ∀ m ∈ ms, m.Flat)
    (short : ∀ m ∈ ms, m.Short nl vl) (some : ms ≠ []) {k : Nat}
    (digits : ∀ i < k + ms.length, (decimal i).length < nl.toNat) {text after : List UInt8}
    (left : Comes (text) tail e r)
    (same : (JsonView.start nl vl j).run text =
      (JsonView.start nl vl (squareJson 1 (UInt8.ofNat k))).run (elementsSource ms ++ 93 :: after)) :
    ∃ r', Comes after tail e r' ∧ JsonCalls nl vl r j (elementsSeen k ms) r'
      (squareJson 0 (UInt8.ofNat (k + ms.length))) := by
  have label (k : Nat) : (UInt8.ofNat k).toNat = k % 256 := UInt8.toNat_ofNat'
  have next (k : Nat) : UInt8.ofNat k + 1 = UInt8.ofNat (k + 1) := by
    rw [UInt8.ofNat_add]
    rfl
  have digit {m : JsonElement} {ms : List JsonElement} {k : Nat}
      (digits : ∀ i < k + (m :: ms).length, (decimal i).length < nl.toNat) :
      (decimal (UInt8.ofNat k).toNat).length < nl.toNat := by
    have less := Nat.mod_le k 256
    rw [label]
    apply digits
    rw [List.length_cons]
    omega
  fun_induction elementsSource ms generalizing r j text k with
  | case1 => exact absurd rfl some
  | case2 m =>
      obtain ⟨r', left', call⟩ := element_call (flat m (by simp)) (short m (by simp)) (digit digits)
        left same fun n => bracket_run rfl after
      rw [label, next] at call
      refine ⟨r', left', ?_⟩
      rw [elementsSeen_cons]
      exact .cons call (.nil _ _)
  | case3 m ms more ih =>
      rw [List.append_assoc] at same
      obtain ⟨r', left', call⟩ := element_call (flat m (by simp)) (short m (by simp)) (digit digits)
        left same fun n => elementComma_run rfl _
      rw [label, next] at call
      obtain ⟨r'', left'', calls⟩ := ih (k := k + 1) (fun m' member => flat m' (by simp [member]))
        (fun m' member => short m' (by simp [member])) more
        (fun i less => digits i (by rw [List.length_cons]; omega)) left' rfl
      refine ⟨r'', left'', ?_⟩
      rw [elementsSeen_cons, List.length_cons, Nat.add_comm ms.length 1, ← Nat.add_assoc]
      exact .cons call calls

/-- All elements are read in order, each named by its index, and then no more. -/
def NamedByIndex (nl vl : UInt8) (r : Reader) (ms : List JsonElement) : Prop :=
  ∃ r' j', JsonCalls nl vl r ⟨0, 0, 0, 0⟩
    ((ms.mapIdx fun k m => ⟨1, decimal k, m.token.content⟩) ++ [⟨0, [], []⟩]) r' j'

theorem array_calls {a : JsonArray} (flat : a.Flat) (named : 0 < nl) (valued : 0 < vl)
    (short : ∀ m ∈ a.elements, m.Short nl vl)
    (digits : ∀ k < a.elements.length, (decimal k).length < nl.toNat) {after : List UInt8}
    (blanks : Blanks after) (final : e.ret ≤ 0) (left : Comes (a.source ++ after) [] e r) :
    ∃ r' j', JsonCalls nl vl r ⟨0, 0, 0, 0⟩ (elementsSeen 0 a.elements ++ [⟨0, [], []⟩]) r' j' := by
  have same : (JsonView.start nl vl ⟨0, 0, 0, 0⟩).run (a.source ++ after) =
      (JsonView.start nl vl (squareJson 1 0)).run (elementsSource a.elements ++ 93 :: after) := by
    rw [← array_run flat.lead flat.space valued]
    simp [JsonArray.source]
  by_cases empty : a.elements = []
  · rw [empty] at same ⊢
    have closed : (JsonView.start nl vl ⟨0, 0, 0, 0⟩).run (a.source ++ after) =
        (JsonView.start nl vl (squareJson 0 0), some after) := by
      rw [same]
      exact bracket_run rfl after
    obtain ⟨r', -, call⟩ := empty_call left closed (fun none => nomatch none) named
    exact ⟨r', _, .cons call (.nil _ _)⟩
  · obtain ⟨r', left', calls⟩ := elements_calls (k := 0) flat.elements short empty
      (by simpa using digits) left same
    obtain ⟨r'', last⟩ := after_call blanks _ named valued final left'
    exact ⟨r'', _, calls.append (.cons last (.nil _ _))⟩

theorem elementsSeen_few {ms : List JsonElement} (few : ms.length ≤ 256) :
    elementsSeen 0 ms = ms.mapIdx fun k m => ⟨1, decimal k, m.token.content⟩ := by
  apply List.ext_getElem (by simp [elementsSeen])
  intro i inside inside'
  have less : i < 256 := by
    rw [List.length_mapIdx] at inside'
    omega
  simp [elementsSeen, Nat.mod_eq_of_lt less]

theorem elementsSeen_many {ms : List JsonElement} (many : 256 < ms.length) :
    elementsSeen 0 ms ≠ ms.mapIdx fun k m => ⟨1, decimal k, m.token.content⟩ := by
  intro same
  have row := congrArg (fun ys => ys[256]?.map JsonSeen.name) same
  simp only [elementsSeen, List.getElem?_mapIdx, List.getElem?_eq_getElem many, Option.map_some,
    Option.some.injEq] at row
  exact absurd row (by decide)

theorem not_named {ms : List JsonElement} {u : Reader} {k : JsonState}
    (calls : JsonCalls nl vl r ⟨0, 0, 0, 0⟩ (elementsSeen 0 ms ++ [⟨0, [], []⟩]) u k)
    (many : 256 < ms.length) : ¬ NamedByIndex nl vl r ms := by
  rintro ⟨u', k', indexed⟩
  have lists := (calls.unique indexed (by simp [elementsSeen])).1
  exact elementsSeen_many many (List.append_cancel_right lists)

theorem flatArray_named_iff {a : JsonArray} (flat : a.Flat) (named : 0 < nl) (valued : 0 < vl)
    (short : ∀ m ∈ a.elements, m.Short nl vl)
    (digits : ∀ k < a.elements.length, (decimal k).length < nl.toNat) {after : List UInt8}
    (blanks : Blanks after) (final : e.ret ≤ 0) (left : Comes (a.source ++ after) [] e r) :
    NamedByIndex nl vl r a.elements ↔ a.elements.length ≤ 256 := by
  obtain ⟨r', j', calls⟩ := array_calls flat named valued short digits blanks final left
  constructor
  · intro indexed
    by_contra many
    exact not_named calls (Nat.lt_of_not_le many) indexed
  · intro few
    rw [elementsSeen_few few] at calls
    exact ⟨r', j', calls⟩

def letterArray (n : Nat) : JsonArray := ⟨[], [32], List.replicate n ⟨[], .bare [120], [32]⟩⟩

theorem letterArray_flat (n : Nat) : (letterArray n).Flat where
  lead := by simp [Blanks, letterArray]
  space := by simp [Blanks, letterArray, isSpace]
  elements := by
    intro m member
    obtain rfl := List.eq_of_mem_replicate member
    refine ⟨by simp [Blanks], ⟨by decide, ?_⟩, by decide, by simp [Blanks, isSpace]⟩
    exact (by decide : ∀ b ∈ [(120 : UInt8)], b ≠ 0 ∧ isSpace b = false ∧ b ∉ [39, 34] ∧
      b ∉ [44, 123, 125, 91, 93])

theorem letterArray_short (n : Nat) : ∀ m ∈ (letterArray n).elements, m.Short 8 4 := by
  intro m member
  obtain rfl := List.eq_of_mem_replicate member
  exact ⟨by decide, by decide⟩

theorem decimal_short : ∀ k < 257, (decimal k).length < 8 := by decide +kernel

theorem flatArray_named_two :
    NamedByIndex 8 4 (textReader ((letterArray 2).source ++ [])) (letterArray 2).elements ↔
      (letterArray 2).elements.length ≤ 256 :=
  flatArray_named_iff (letterArray_flat 2) (by decide) (by decide) (letterArray_short 2)
    (fun k less => decimal_short k (Nat.lt_trans less (by decide))) Blanks.nil
    (by decide) (textReader_comes _)

theorem flatArray_wraps :
    ¬ NamedByIndex 8 4 (textReader ((letterArray 257).source ++ [])) (letterArray 257).elements := by
  have length : (letterArray 257).elements.length = 257 := List.length_replicate
  obtain ⟨u, k, calls⟩ := array_calls (letterArray_flat 257) (by decide : (0 : UInt8) < 8)
    (by decide : (0 : UInt8) < 4) (letterArray_short 257)
    (fun k less => decimal_short k (by omega)) Blanks.nil
    (by decide : GetByte.zero.ret ≤ 0) (textReader_comes _)
  exact not_named calls (by omega)

end AttoHTTP
