import AttoHTTP.Proof.JsonText

namespace AttoHTTP
open Library Comp

/-! ## Calls -/

/-- What the caller sees: the result and the two C strings. -/
structure JsonSeen where
  ret : UInt8
  name : List UInt8
  value : List UInt8

variable {nl vl : UInt8} {tail : List GetByte} {e : GetByte}

/-- A call with buffers of these sizes, whatever they hold. -/
def JsonCall (nl vl : UInt8) (r : Reader) (j : JsonState) (y : JsonSeen) (r' : Reader)
    (j' : JsonState) : Prop :=
  ∀ name value, ∃ p, (parseJSONParam name nl value vl r j).Returns p ∧ p.ret = y.ret ∧
    p.name.cstr nl.toNat = y.name ∧ p.value.cstr vl.toNat = y.value ∧ p.reader = r' ∧ p.json = j'

inductive JsonCalls (nl vl : UInt8) : Reader → JsonState → List JsonSeen → Reader → JsonState → Prop
  | nil (r : Reader) (j : JsonState) : JsonCalls nl vl r j [] r j
  | cons {r r' u : Reader} {j j' k : JsonState} {y : JsonSeen} {ys : List JsonSeen}
      (call : JsonCall nl vl r j y r' j') (rest : JsonCalls nl vl r' j' ys u k) :
      JsonCalls nl vl r j (y :: ys) u k

theorem JsonCall.unique {r r₁ r₂ : Reader} {j j₁ j₂ : JsonState} {y₁ y₂ : JsonSeen}
    (h₁ : JsonCall nl vl r j y₁ r₁ j₁) (h₂ : JsonCall nl vl r j y₂ r₂ j₂) :
    y₁ = y₂ ∧ r₁ = r₂ ∧ j₁ = j₂ := by
  obtain ⟨p, run, ret, name, value, rfl, rfl⟩ := h₁ (fun _ => 0) fun _ => 0
  obtain ⟨p', run', ret', name', value', rfl, rfl⟩ := h₂ (fun _ => 0) fun _ => 0
  obtain rfl := run.unique run'
  cases y₁
  cases y₂
  simp_all

theorem JsonCalls.append {r u w : Reader} {j k l : JsonState} {ys zs : List JsonSeen}
    (first : JsonCalls nl vl r j ys u k) (second : JsonCalls nl vl u k zs w l) :
    JsonCalls nl vl r j (ys ++ zs) w l := by
  induction first with
  | nil r j => exact second
  | cons call rest ih => exact .cons call (ih second)

theorem JsonCalls.unique {r u u' : Reader} {j k k' : JsonState} {ys zs : List JsonSeen}
    (h : JsonCalls nl vl r j ys u k) (h' : JsonCalls nl vl r j zs u' k')
    (length : ys.length = zs.length) : ys = zs ∧ u = u' ∧ k = k' := by
  induction h generalizing zs with
  | nil r j =>
      cases h' with
      | nil => exact ⟨rfl, rfl, rfl⟩
      | cons call rest => cases length
  | cons call rest ih =>
      cases h' with
      | nil => cases length
      | cons call' rest' =>
          obtain ⟨rfl, rfl, rfl⟩ := call.unique call'
          obtain ⟨rfl, same⟩ := ih rest' (Nat.succ.inj length)
          exact ⟨rfl, same⟩

variable {r : Reader} {j : JsonState} {text : List UInt8} {w : JsonView} {rest : Option (List UInt8)}

theorem parseJSONParam_run (left : Comes text tail e r)
    (run : (JsonView.start nl vl j).run text = (w, rest))
    (ends : rest = none → tail = [] ∧ e.ret ≤ 0) :
    ∃ r', Comes (rest.getD []) tail e r' ∧ ∀ name value, ∃ ret c,
      (parseJSONParam name nl value vl r j).Returns (finishJson nl vl (w.loop name value ret c r')) := by
  have entered : Comes text tail e r.enter := ⟨left.pending, left.atEnd⟩
  obtain ⟨ret, c, r', loop, left'⟩ := jsonLoop_run (JsonView.start nl vl j) 0 (r.frame 0) entered
    (by rw [run]; exact ends)
  rw [run] at loop left'
  exact ⟨r', left', fun name value => ⟨ret, c, (loop name value).bind (returns_pure.mpr rfl)⟩⟩

theorem jsonCall_keyed {ret : UInt8} (left : Comes text tail e r)
    (run : (JsonView.start nl vl j).run text = (w, rest))
    (ends : rest = none → tail = [] ∧ e.ret ≤ 0) (keyed : w.divider ≠ 0 ∨ w.name = [])
    (nonzero : ∀ b ∈ w.name ++ w.value, b ≠ 0) (short : w.name.length ≤ nl.toNat)
    (short' : w.value.length ≤ vl.toNat) (result : (if w.nameLen = 0 then 1 else 0) = ret) :
    ∃ r', Comes (rest.getD []) tail e r' ∧
      JsonCall nl vl r j ⟨ret, w.name, w.value⟩ r' w.scan.json := by
  obtain ⟨r', left', call⟩ := parseJSONParam_run left run ends
  refine ⟨r', left', fun name value => ?_⟩
  obtain ⟨_, c, call⟩ := call name value
  have stored : ¬ (w.divider = 0 ∧ w.name.length ≠ 0) := by
    rintro ⟨undivided, named⟩
    cases keyed with
    | inl divided => exact divided undivided
    | inr empty => exact named (by rw [empty]; rfl)
  rw [finishJson_keyed stored] at call
  refine ⟨_, call, result, ?_, ?_, rfl, rfl⟩
  · dsimp only
    rw [Mem.cstr_put name fun b member => nonzero b (List.mem_append_left _ member)]
    exact List.take_of_length_le short
  · dsimp only
    rw [Mem.cstr_put value fun b member => nonzero b (List.mem_append_right _ member)]
    exact List.take_of_length_le short'

theorem decimal_byte_nonzero : ∀ n < 256, ∀ b ∈ decimal n, b ≠ 0 := by
  decide +kernel

theorem cstr_vsnprintf (m : Mem) {size : Nat} {text : List UInt8} (nonzero : ∀ b ∈ text, b ≠ 0)
    (fits : text.length < size) : (vsnprintf m size text).cstr size = text := by
  rw [Mem.cstr_eq nonzero, List.take_of_length_le fits.le]
  · intro i inside _
    rw [vsnprintf, if_pos ⟨by omega, inside⟩, List.getD_eq_getElem?_getD,
      List.getElem?_eq_getElem inside, Option.getD_some]
  · intro _
    rw [vsnprintf, if_neg (by omega), if_pos (by omega)]

theorem cstr_strncpy (m : Mem) {size : Nat} {text : List UInt8} (nonzero : ∀ b ∈ text, b ≠ 0) :
    (m.strncpy (text.take size) size).cstr size = text.take size := by
  rw [Mem.cstr_eq nonzero]
  · intro i inside less
    rw [Mem.strncpy, if_pos less, List.getD_eq_getElem?_getD, List.getElem?_take_of_lt less,
      List.getElem?_eq_getElem inside, Option.getD_some]
  · intro fits
    rw [Mem.strncpy, if_pos fits, List.take_of_length_le fits.le, List.getD_eq_getElem?_getD,
      List.getElem?_eq_none le_rfl, Option.getD_none]

theorem jsonCall_element (left : Comes text tail e r)
    (run : (JsonView.start nl vl j).run text = (w, rest))
    (ends : rest = none → tail = [] ∧ e.ret ≤ 0) (keyless : w.divider = 0) (stored : w.name ≠ [])
    (nonzero : ∀ b ∈ w.name, b ≠ 0)
    (digits : (decimal w.scan.json.counter.toNat).length < nl.toNat) :
    ∃ r', Comes (rest.getD []) tail e r' ∧
      JsonCall nl vl r j ⟨1, decimal w.scan.json.counter.toNat, w.name.take vl.toNat⟩ r'
        { w.scan.json with counter := w.scan.json.counter + 1 } := by
  obtain ⟨r', left', call⟩ := parseJSONParam_run left run ends
  refine ⟨r', left', fun name value => ?_⟩
  obtain ⟨ret, c, call⟩ := call name value
  rw [finishJson_element keyless stored nonzero] at call
  refine ⟨_, call, rfl, ?_, ?_, rfl, rfl⟩
  · dsimp only
    rw [snprintfDecimal, if_neg (by omega)]
    exact cstr_vsnprintf _ (decimal_byte_nonzero _ w.scan.json.counter.toNat_lt) digits
  · exact cstr_strncpy _ nonzero

/-! ## Objects -/

structure JsonMember where
  lead : List UInt8
  key : JsonToken
  gap : List UInt8
  space : List UInt8
  value : JsonToken
  trail : List UInt8

def JsonMember.source (m : JsonMember) : List UInt8 :=
  m.lead ++ (m.key.source ++ (m.gap ++ 58 :: (m.space ++ (m.value.source ++ m.trail))))

def Blanks (text : List UInt8) : Prop := ∀ b ∈ text, isSpace b = true

theorem Blanks.nil : Blanks [] := by simp [Blanks]

structure JsonMember.Flat (m : JsonMember) : Prop where
  lead : Blanks m.lead
  gap : Blanks m.gap
  space : Blanks m.space
  trail : Blanks m.trail
  key : m.key.Flat ∧ m.key.Keyable
  value : m.value.Flat ∧ m.value.Keyable

def membersSource : List JsonMember → List UInt8
  | [] => []
  | [m] => m.source
  | m :: ms => m.source ++ 44 :: membersSource ms

structure JsonObject where
  lead : List UInt8
  space : List UInt8
  members : List JsonMember

def JsonObject.source (o : JsonObject) : List UInt8 :=
  o.lead ++ 123 :: (o.space ++ (membersSource o.members ++ [125]))

structure JsonObject.Flat (o : JsonObject) : Prop where
  lead : Blanks o.lead
  space : Blanks o.space
  members : ∀ m ∈ o.members, m.Flat

def JsonMember.seen (nl vl : UInt8) (m : JsonMember) : JsonSeen :=
  ⟨1, m.key.content.take (nl.toNat - 1), m.value.content.take (vl.toNat - 1)⟩

def JsonMember.view (nl vl : UInt8) (j : JsonState) (n : UInt8) (m : JsonMember) : JsonView :=
  ⟨m.key.content.take (nl.toNat - 1), 0, m.value.content.take (vl.toNat - 1), n, 58, 0, 0, j⟩

theorem JsonToken.Flat.nonzero {token : JsonToken} (flat : token.Flat) :
    ∀ b ∈ token.content, b ≠ 0 := by
  cases token with
  | quoted q text => exact fun b member => (flat b member).1
  | bare text => exact fun b member => (flat.2 b member).1

theorem divide_run {v : JsonView} (quiet : v.scan.Quiet) (curly : v.scan.json.cblevel = 1)
    (square : v.scan.json.sblevel = 0) (room : 0 < v.valueLen) (text : List UInt8) :
    v.run (58 :: text) = JsonView.run { v with nameLen := 0, divider := 58 } text := by
  have lex := lex_colon quiet curly square
  rw [run_next (by decide) lex room, JsonView.feed, lex]
  rfl

def keyView (nl vl : UInt8) (j : JsonState) (key : List UInt8) : JsonView :=
  ⟨key.take (nl.toNat - 1), 0, [], vl, 58, 0, 0, j⟩

theorem key_run {key : JsonToken} {gap : List UInt8} (flat : key.Flat) (keyable : key.Keyable)
    (blanks : Blanks gap) (named : 0 < nl) (valued : 0 < vl) (curly : j.cblevel = 1)
    (square : j.sblevel = 0) (rest : List UInt8) :
    (JsonView.start nl vl j).run (key.source ++ (gap ++ 58 :: rest)) =
      (keyView nl vl j key.content).run rest := by
  have quiet : JsonScan.Quiet ⟨0, 0, j⟩ := ⟨rfl, rfl⟩
  have level : j.level ≤ 1 := by
    rw [JsonState.level, curly, square]
    decide
  obtain ⟨k, -, stored⟩ := stores_name (v := .start nl vl j) named key.content
  have stored' : (JsonView.start nl vl j).stores key.content =
      ⟨key.content.take (nl.toNat - 1), k, [], vl, 0, 0, 0, j⟩ := stored
  rw [run_token (v := .start nl vl j) flat (fun _ => keyable) quiet level valued, stored',
    run_blanks (v := ⟨_, k, [], vl, 0, 0, 0, j⟩) blanks quiet level valued,
    divide_run (v := ⟨_, k, [], vl, 0, 0, 0, j⟩) quiet curly square valued]
  rfl

theorem value_run {value : JsonToken} {trail : List UInt8} (key : List UInt8) (flat : value.Flat)
    (keyable : value.Keyable) (blanks : Blanks trail) (valued : 0 < vl) (level : j.level ≤ 1)
    (rest : List UInt8) : ∃ n, 0 < n ∧
      (keyView nl vl j key).run (value.source ++ (trail ++ rest)) =
        JsonView.run ⟨key.take (nl.toNat - 1), 0, value.content.take (vl.toNat - 1), n, 58, 0, 0, j⟩
          rest := by
  have quiet : JsonScan.Quiet ⟨0, 0, j⟩ := ⟨rfl, rfl⟩
  obtain ⟨n, room, stored⟩ := stores_value (v := keyView nl vl j key) rfl valued value.content
  have stored' : (keyView nl vl j key).stores value.content =
      ⟨key.take (nl.toNat - 1), 0, value.content.take (vl.toNat - 1), n, 58, 0, 0, j⟩ := stored
  refine ⟨n, room, ?_⟩
  rw [run_token (v := keyView nl vl j key) flat (fun _ => keyable) quiet level valued, stored',
    run_blanks (v := ⟨_, 0, _, n, 58, 0, 0, j⟩) blanks quiet level room]

theorem member_run {m : JsonMember} (flat : m.Flat) (named : 0 < nl) (valued : 0 < vl)
    (curly : j.cblevel = 1) (square : j.sblevel = 0) (rest : List UInt8) : ∃ n, 0 < n ∧
      (JsonView.start nl vl j).run (m.source ++ rest) = (m.view nl vl j n).run rest := by
  have quiet : JsonScan.Quiet ⟨0, 0, j⟩ := ⟨rfl, rfl⟩
  have level : j.level ≤ 1 := by
    rw [JsonState.level, curly, square]
    decide
  obtain ⟨n, room, value⟩ := value_run m.key.content flat.value.1 flat.value.2 flat.trail
    valued level rest
  refine ⟨n, room, ?_⟩
  simp only [JsonMember.source, List.append_assoc, List.cons_append]
  rw [run_blanks (v := .start nl vl j) flat.lead quiet level valued,
    key_run flat.key.1 flat.key.2 flat.gap named valued curly square,
    run_blanks (v := keyView nl vl j m.key.content) flat.space quiet level valued, value]
  rfl

def curlyJson (level : UInt8) : JsonState := ⟨level, 0, 123, 0⟩

theorem object_run {lead space : List UInt8} (blanks : Blanks lead) (blanks' : Blanks space)
    (valued : 0 < vl) (rest : List UInt8) :
    (JsonView.start nl vl ⟨0, 0, 0, 0⟩).run (lead ++ 123 :: (space ++ rest)) =
      (JsonView.start nl vl (curlyJson 1)).run rest := by
  have quiet (j : JsonState) : JsonScan.Quiet ⟨0, 0, j⟩ := ⟨rfl, rfl⟩
  have lex : (JsonView.start nl vl ⟨0, 0, 0, 0⟩).scan.lex 123 =
      (⟨0, 0, curlyJson 1⟩, .skip, .next) := lex_brace (s := ⟨0, 0, 0, 0, 0, 0⟩) rfl
  have opened : (JsonView.start nl vl ⟨0, 0, 0, 0⟩).feed 123 = .start nl vl (curlyJson 1) :=
    feed_skip lex
  have level : JsonState.level ⟨0, 0, 0, 0⟩ ≤ 1 := by decide
  have level' : (curlyJson 1).level ≤ 1 := by decide
  rw [run_blanks (v := .start nl vl ⟨0, 0, 0, 0⟩) blanks (quiet _) level valued,
    run_next (by decide) lex valued, opened,
    run_blanks (v := .start nl vl (curlyJson 1)) blanks' (quiet _) level' valued]

theorem close_run {v : JsonView} (level : UInt8) (curly : level ≤ 1)
    (scan : v.scan = ⟨0, 0, curlyJson level⟩) (rest : List UInt8) :
    v.run (125 :: rest) = ({ v with scan := ⟨0, 0, curlyJson (level - 1)⟩ }, some (125 :: rest)) := by
  have lex : v.scan.lex 125 = (⟨0, 0, curlyJson (level - 1)⟩, .skip, .push) := by
    rw [scan]
    exact lex_unbrace (s := ⟨0, 0, curlyJson level⟩) curly rfl
  rw [run_push (by decide) lex, feed_skip lex]

theorem comma_run {v : JsonView} (scan : v.scan = ⟨0, 0, curlyJson 1⟩) (rest : List UInt8) :
    v.run (44 :: rest) = (v, some rest) := by
  have lex : v.scan.lex 44 = (v.scan, .skip, .stop) := by
    rw [scan]
    exact lex_comma (s := ⟨0, 0, curlyJson 1⟩) (by decide)
  rw [run_stop (by decide) lex, feed_skip lex]

theorem close_call {text rest : List UInt8} {level : UInt8} (left : Comes text tail e r)
    (same : (JsonView.start nl vl j).run text =
      (JsonView.start nl vl (curlyJson level)).run (125 :: rest))
    (curly : level ≤ 1) (named : 0 < nl) : ∃ r', Comes (125 :: rest) tail e r' ∧
      JsonCall nl vl r j ⟨0, [], []⟩ r' (curlyJson (level - 1)) := by
  rw [close_run level curly rfl] at same
  exact jsonCall_keyed left same (fun none => nomatch none) (.inr rfl) (by simp [JsonView.start])
    (Nat.zero_le _) (Nat.zero_le _) (if_neg (UInt8.pos_iff_ne_zero.mp named))

theorem keyed_call {key value : List UInt8} {n : UInt8} (nonzero : ∀ b ∈ key, b ≠ 0)
    (nonzero' : ∀ b ∈ value, b ≠ 0) {text left' : List UInt8} {scan : JsonScan}
    (left : Comes text tail e r) (run : (JsonView.start nl vl j).run text =
      (⟨key.take (nl.toNat - 1), 0, value.take (vl.toNat - 1), n, 58, scan⟩, some left')) :
    ∃ r', Comes left' tail e r' ∧
      JsonCall nl vl r j ⟨1, key.take (nl.toNat - 1), value.take (vl.toNat - 1)⟩ r' scan.json := by
  apply jsonCall_keyed left run (fun none => nomatch none) (.inl (by decide : (58 : UInt8) ≠ 0))
  · intro b stored
    cases List.mem_append.mp stored with
    | inl name => exact nonzero b (List.mem_of_mem_take name)
    | inr value => exact nonzero' b (List.mem_of_mem_take value)
  · exact (List.length_take_le _ _).trans (Nat.sub_le _ _)
  · exact (List.length_take_le _ _).trans (Nat.sub_le _ _)
  · rfl

theorem member_call {m : JsonMember} (flat : m.Flat) (named : 0 < nl) (valued : 0 < vl)
    {text rest : List UInt8} {scan : JsonScan} {left' : List UInt8} (left : Comes text tail e r)
    (same : (JsonView.start nl vl j).run text =
      (JsonView.start nl vl (curlyJson 1)).run (m.source ++ rest))
    (ends : ∀ n, 0 < n → (m.view nl vl (curlyJson 1) n).run rest =
      ({ m.view nl vl (curlyJson 1) n with scan := scan }, some left')) :
    ∃ r', Comes left' tail e r' ∧ JsonCall nl vl r j (m.seen nl vl) r' scan.json := by
  obtain ⟨n, room, member⟩ := member_run (j := curlyJson 1) flat named valued rfl rfl rest
  exact keyed_call flat.key.1.nonzero flat.value.1.nonzero left
    (same.trans (member.trans (ends n room)))

theorem members_calls {ms : List JsonMember} (flat : ∀ m ∈ ms, m.Flat) (some : ms ≠ [])
    (named : 0 < nl) (valued : 0 < vl) {text rest : List UInt8} (left : Comes text tail e r)
    (same : (JsonView.start nl vl j).run text =
      (JsonView.start nl vl (curlyJson 1)).run (membersSource ms ++ 125 :: rest)) :
    ∃ r', Comes (125 :: rest) tail e r' ∧
      JsonCalls nl vl r j (ms.map (JsonMember.seen nl vl) ++ [⟨0, [], []⟩]) r' (curlyJson 255) := by
  fun_induction membersSource ms generalizing r j text with
  | case1 => exact absurd rfl some
  | case2 m =>
      obtain ⟨r', left', call⟩ := member_call (flat m (by simp)) named valued left same
        fun n _ => close_run 1 (by decide) rfl rest
      obtain ⟨r'', left'', last⟩ :=
        close_call left' (rfl : _ = (JsonView.start nl vl (curlyJson 0)).run _) (by decide) named
      exact ⟨r'', left'', .cons call (.cons last (.nil _ _))⟩
  | case3 m ms more ih =>
      rw [List.append_assoc] at same
      obtain ⟨r', left', call⟩ := member_call (flat m (by simp)) named valued left same
        fun n _ => comma_run rfl _
      obtain ⟨r'', left'', calls⟩ := ih (fun m' member => flat m' (by simp [member])) more left' rfl
      exact ⟨r'', left'', .cons call calls⟩

theorem object_calls {o : JsonObject} (flat : o.Flat) (named : 0 < nl) (valued : 0 < vl)
    {after : List UInt8} (left : Comes (o.source ++ after) tail e r) :
    ∃ r', Comes (125 :: after) tail e r' ∧
      JsonCalls nl vl r ⟨0, 0, 0, 0⟩ (o.members.map (JsonMember.seen nl vl) ++ [⟨0, [], []⟩]) r'
        (curlyJson (if o.members = [] then 0 else 255)) := by
  have same : (JsonView.start nl vl ⟨0, 0, 0, 0⟩).run (o.source ++ after) =
      (JsonView.start nl vl (curlyJson 1)).run (membersSource o.members ++ 125 :: after) := by
    rw [← object_run flat.lead flat.space valued]
    simp [JsonObject.source]
  by_cases empty : o.members = []
  · rw [if_pos empty]
    rw [empty] at same ⊢
    obtain ⟨r', left', call⟩ := close_call left same (by decide) named
    exact ⟨r', left', .cons call (.nil _ _)⟩
  · rw [if_neg empty]
    exact members_calls flat.members empty named valued left same

theorem flatObject_calls {o : JsonObject} (flat : o.Flat) (named : 0 < nl) (valued : 0 < vl)
    (left : Comes o.source tail e r) : ∃ r' j', JsonCalls nl vl r ⟨0, 0, 0, 0⟩
      (o.members.map (JsonMember.seen nl vl) ++ [⟨0, [], []⟩]) r' j' := by
  rw [← List.append_nil o.source] at left
  obtain ⟨r', -, calls⟩ := object_calls flat named valued left
  exact ⟨r', _, calls⟩

def lampObject : JsonObject :=
  ⟨[10], [32], [⟨[], .quoted .double (ascii "lamp: 1"), [], [32], .bare (ascii "bright"), []⟩,
    ⟨[32], .quoted .single (ascii "on"), [32], [], .bare (ascii "1"), [10]⟩]⟩

theorem lampObject_flat : lampObject.Flat where
  lead := by simp [Blanks, lampObject, isSpace]
  space := by simp [Blanks, lampObject, isSpace]
  members := by
    intro m member
    simp only [lampObject, List.mem_cons, List.not_mem_nil, or_false] at member
    rcases member with rfl | rfl
    · refine ⟨.nil, .nil, by simp [Blanks, isSpace], .nil, ⟨?_, trivial⟩, ⟨by decide, ?_⟩, ?_⟩
      · exact (by decide : ∀ b ∈ ascii "lamp: 1", b ≠ 0 ∧ b ≠ 34 ∧ b ∉ [44, 123, 125, 91, 93])
      · exact (by decide : ∀ b ∈ ascii "bright", b ≠ 0 ∧ isSpace b = false ∧ b ∉ [39, 34] ∧
          b ∉ [44, 123, 125, 91, 93])
      · exact (by decide : 58 ∉ ascii "bright")
    · refine ⟨by simp [Blanks, isSpace], by simp [Blanks, isSpace], .nil, by simp [Blanks, isSpace],
        ⟨?_, trivial⟩, ⟨by decide, ?_⟩, ?_⟩
      · exact (by decide : ∀ b ∈ ascii "on", b ≠ 0 ∧ b ≠ 39 ∧ b ∉ [44, 123, 125, 91, 93])
      · exact (by decide : ∀ b ∈ ascii "1", b ≠ 0 ∧ isSpace b = false ∧ b ∉ [39, 34] ∧
          b ∉ [44, 123, 125, 91, 93])
      · exact (by decide : 58 ∉ ascii "1")

def textReader (text : List UInt8) : Reader := ⟨sends text, .zero, none, fun _ _ => 0⟩

theorem textReader_comes (text : List UInt8) : Comes text [] .zero (textReader text) :=
  ⟨(List.append_nil _).symm, rfl⟩

theorem flatObject_calls_lamp : ∃ r' j', JsonCalls 8 4 (textReader lampObject.source) ⟨0, 0, 0, 0⟩
    (lampObject.members.map (JsonMember.seen 8 4) ++ [⟨0, [], []⟩]) r' j' :=
  flatObject_calls lampObject_flat (by decide) (by decide) (textReader_comes _)

/-! ## After the end -/

/-- Once a call has returned 0, so does every later one. -/
def LaterZero (ys : List JsonSeen) : Prop := ys.Pairwise fun y z => y.ret = 0 → z.ret = 0

/-- The end is final, and no counter has been counted down below zero. -/
def EndFinal (nl vl : UInt8) (r : Reader) : Prop :=
  ∀ ys u k, JsonCalls nl vl r ⟨0, 0, 0, 0⟩ ys u k →
    LaterZero ys ∧ 0 ≤ k.cblevel.toInt8 ∧ 0 ≤ k.sblevel.toInt8

theorem object_calls_below {o : JsonObject} (flat : o.Flat) (named : 0 < nl) (valued : 0 < vl)
    {after : List UInt8} (left : Comes (o.source ++ after) tail e r) :
    ∃ r' ys, Comes (125 :: after) tail e r' ∧
      JsonCalls nl vl r ⟨0, 0, 0, 0⟩ (ys ++ [⟨0, [], []⟩]) r' (curlyJson 255) := by
  obtain ⟨r', left', calls⟩ := object_calls flat named valued left
  by_cases empty : o.members = []
  · rw [if_pos empty] at calls
    obtain ⟨r'', left'', last⟩ := close_call left'
      (rfl : _ = (JsonView.start nl vl (curlyJson 0)).run _) (by decide) named
    exact ⟨r'', _, left'', calls.append (.cons last (.nil _ _))⟩
  · rw [if_neg empty] at calls
    exact ⟨r', _, left', calls⟩

theorem brace_run {after : List UInt8} (blanks : Blanks after) (valued : 0 < vl) :
    (JsonView.start nl vl (curlyJson 255)).run (125 :: after) =
      ({ (JsonView.start nl vl (curlyJson 254)).stores (125 :: after) with
        scan := ⟨0, 0, curlyJson 254⟩ }, none) := by
  have lex : (JsonView.start nl vl (curlyJson 255)).scan.lex 125 =
      (⟨0, 0, curlyJson 254⟩, .char, .next) :=
    lex_deep (s := ⟨0, 0, curlyJson 255⟩) (by decide) (fun h => absurd h.2.1 (by decide))
      fun h => absurd h.1 (by decide)
  have room : 0 < ((JsonView.start nl vl (curlyJson 254)).store 125).valueLen :=
    store_valueLen _ _ valued
  have stored : (JsonView.start nl vl (curlyJson 255)).feed 125 =
      (JsonView.start nl vl (curlyJson 254)).store 125 := by
    rw [feed_char lex]
    exact (store_setScan (JsonView.start nl vl (curlyJson 255)) ⟨0, 0, curlyJson 254⟩ 125).symm
  have scan : ((JsonView.start nl vl (curlyJson 254)).store 125).scan = ⟨0, 0, curlyJson 254⟩ :=
    store_scan _ _
  rw [run_next (by decide) lex valued, stored, ← List.append_nil after, run_chars _ room]
  · rw [List.append_nil, JsonView.run, stores_cons, ← scan, ← stores_scan _ after]
  · intro b member
    have blank := blanks b member
    have nonzero : b ≠ 0 := by
      rintro rfl
      cases blank
    have plain : b ∉ [123, 125, 91, 93] := by
      intro bracket
      simp only [List.mem_cons, List.not_mem_nil, or_false] at bracket
      rcases bracket with rfl | rfl | rfl | rfl <;> cases blank
    refine ⟨nonzero, ?_⟩
    rw [scan, lex_deep (by decide) (fun h => plain (by simp [h.1])) fun h => plain (by simp [h.1]),
      nestJson_ordinary plain]
    rfl

theorem brace_call {after : List UInt8} (blanks : Blanks after) (named : 1 < nl) (valued : 0 < vl)
    (final : e.ret ≤ 0) (left : Comes (125 :: after) [] e r) : ∃ r' name k,
      JsonCall nl vl r (curlyJson 255) ⟨1, [48], name⟩ r' k := by
  have run : (JsonView.start nl vl (curlyJson 255)).run (125 :: after) = _ := brace_run blanks valued
  have named' : 0 < nl := UInt8.lt_trans (by decide) named
  obtain ⟨n, -, stored⟩ :=
    stores_name (v := .start nl vl (curlyJson 254)) named' (125 :: after)
  have run' : (JsonView.start nl vl (curlyJson 255)).run (125 :: after) =
      (⟨(125 :: after).take (nl.toNat - 1), n, [], vl, 0, 0, 0, curlyJson 254⟩, none) := by
    rw [run, stored]
    rfl
  have room := UInt8.lt_iff_toNat_lt.mp named
  rw [UInt8.toNat_one] at room
  have zero : decimal (curlyJson 254).counter.toNat = [48] := by decide
  have name : (125 :: after).take (nl.toNat - 1) ≠ [] := by
    rw [show nl.toNat - 1 = nl.toNat - 2 + 1 by omega, List.take_succ_cons]
    exact List.cons_ne_nil _ _
  have nonzero : ∀ b ∈ (125 :: after).take (nl.toNat - 1), b ≠ 0 := by
    intro b member
    cases List.mem_cons.mp (List.mem_of_mem_take member) with
    | inl brace =>
        rw [brace]
        decide
    | inr blank =>
        rintro rfl
        cases blanks 0 blank
  obtain ⟨r', -, call⟩ := jsonCall_element left run' (fun _ => ⟨rfl, final⟩) rfl name nonzero
    (show (decimal (curlyJson 254).counter.toNat).length < nl.toNat by rwa [zero])
  change JsonCall _ _ _ _ ⟨1, decimal (curlyJson 254).counter.toNat, _⟩ _ _ at call
  rw [zero] at call
  exact ⟨r', _, _, call⟩

theorem flatObject_never_final {o : JsonObject} (flat : o.Flat) (named : 0 < nl) (valued : 0 < vl)
    {after : List UInt8} (blanks : Blanks after) (final : e.ret ≤ 0)
    (left : Comes (o.source ++ after) [] e r) :
    ¬ EndFinal nl vl r ∧
      (1 < nl → ∃ ys u k, JsonCalls nl vl r ⟨0, 0, 0, 0⟩ ys u k ∧ ¬ LaterZero ys) := by
  obtain ⟨r', ys, left', calls⟩ := object_calls_below flat named valued left
  constructor
  · intro good
    exact absurd (good _ _ _ calls).2.1 (by decide)
  · intro roomy
    obtain ⟨u, name, k, call⟩ := brace_call blanks roomy valued final left'
    refine ⟨_, u, k, calls.append (.cons call (.nil _ _)), fun zero => ?_⟩
    rw [LaterZero, List.append_assoc, List.pairwise_append] at zero
    have pair := zero.2.1
    simp at pair

theorem flatObject_never_final_lamp :
    ¬ EndFinal 8 4 (textReader (lampObject.source ++ [10])) ∧
      ((1 : UInt8) < 8 → ∃ ys u k,
        JsonCalls 8 4 (textReader (lampObject.source ++ [10])) ⟨0, 0, 0, 0⟩ ys u k ∧ ¬ LaterZero ys) :=
  flatObject_never_final lampObject_flat (by decide) (by decide)
    (show Blanks [10] by simp [Blanks, isSpace]) (by decide) (textReader_comes _)

theorem emptyObject_below : ¬ EndFinal 8 4 (textReader [123, 125]) := by
  intro good
  have flat : JsonObject.Flat ⟨[], [], []⟩ :=
    ⟨by simp [Blanks], by simp [Blanks], by simp⟩
  have left : Comes (JsonObject.source ⟨[], [], []⟩ ++ []) [] .zero (textReader [123, 125]) :=
    textReader_comes _
  obtain ⟨r', ys, -, calls⟩ := object_calls_below flat (by decide : (0 : UInt8) < 8)
    (by decide : (0 : UInt8) < 4) left
  exact absurd (good _ _ _ calls).2.1 (by decide)

end AttoHTTP
