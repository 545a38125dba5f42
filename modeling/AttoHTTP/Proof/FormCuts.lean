import AttoHTTP.Proof.FormParams

/-!
# Parameters too long for their buffers

The room left for a name tells whether the value has begun, so the end of a long name goes to the
value, and a value ends where its buffer does.
-/

namespace AttoHTTP
open Library Comp

variable {cfg : Config} {nameLen valueLen : UInt8}

/-! ## What is stored stays -/

theorem ParamView.take_name (v : ParamView) (token : ParamToken) :
    v.name <+: (v.take token).1.name := by
  cases token with
  | stop => exact List.prefix_rfl
  | divide => exact List.prefix_rfl
  | separate => exact List.prefix_rfl
  | char b =>
      simp only [ParamView.take, ParamView.store]
      split
      · exact List.prefix_append _ _
      · exact List.prefix_rfl

theorem ParamView.take_value (v : ParamView) (token : ParamToken) :
    v.value <+: (v.take token).1.value := by
  cases token with
  | stop => exact List.prefix_rfl
  | divide => exact List.prefix_rfl
  | separate => exact List.prefix_rfl
  | char b =>
      simp only [ParamView.take, ParamView.store]
      split
      · exact List.prefix_rfl
      · exact List.prefix_append _ _

theorem ParamView.run_name_value (v : ParamView) (text : List UInt8) :
    v.name <+: (v.run text).1.name ∧ v.value <+: (v.run text).1.value := by
  fun_induction ParamView.run v text with
  | case1 v => exact ⟨List.prefix_rfl, List.prefix_rfl⟩
  | case2 v a b text more ih =>
      exact ⟨(v.take_name _).trans ih.1, (v.take_value _).trans ih.2⟩
  | case3 v a b text stop => exact ⟨v.take_name _, v.take_value _⟩
  | case4 v text short => exact ⟨List.prefix_rfl, List.prefix_rfl⟩
  | case5 v c text plain more ih =>
      exact ⟨(v.take_name _).trans ih.1, (v.take_value _).trans ih.2⟩
  | case6 v c text plain stop => exact ⟨v.take_name _, v.take_value _⟩

theorem Encoded.append {front back text : List UInt8} (h : Encoded (front ++ back) text) :
    ∃ first second, text = first ++ second ∧ Encoded front first ∧ Encoded back second := by
  induction front generalizing text with
  | nil => exact ⟨[], text, rfl, .nil, h⟩
  | cons b front ih =>
      cases h with
      | plain free rest =>
          obtain ⟨first, second, rfl, left, right⟩ := ih rest
          exact ⟨b :: first, second, rfl, .plain free left, right⟩
      | escape other high low rest =>
          obtain ⟨first, second, rfl, left, right⟩ := ih rest
          exact ⟨37 :: _ :: _ :: first, second, rfl, .escape other high low left, right⟩

theorem Encoded.run_stores {b : UInt8} {bytes text : List UInt8} (h : Encoded (b :: bytes) text)
    (v : ParamView) (rest : List UInt8) :
    (v.store b).value <+: (v.run (text ++ rest)).1.value := by
  by_cases more : 0 < (v.store b).valueLen
  · obtain ⟨text', -, step⟩ := h.run_step v rest more
    rw [step]
    exact ((v.store b).run_name_value (text' ++ rest)).2
  · have stop : ¬ (v.take (.char b)).2 = true := by simpa [ParamView.take] using more
    cases h with
    | plain free left =>
        rw [List.cons_append, v.run_char (unreserved_plain _ free).2.2.2.1,
          charToken_unreserved free, if_neg stop]
        exact List.prefix_rfl
    | escape other high low left =>
        rw [← escaped_digits high low] at stop ⊢
        simp only [List.cons_append, ParamView.run, if_pos, if_neg stop]
        exact List.prefix_rfl

/-! ## A pair that is too long -/

theorem run_longName {name n : List UInt8} (left : Encoded name n) (valued : 0 < valueLen)
    (long : nameLen.toNat ≤ name.length) (rest : List UInt8) :
    nameLen.toNat ≤ (ParamView.run ⟨[], nameLen, [], valueLen⟩ (n ++ rest)).1.name.length := by
  rw [← List.take_append_drop nameLen.toNat name] at left
  obtain ⟨first, second, rfl, head, -⟩ := left.append
  have length : (name.take nameLen.toNat).length = nameLen.toNat := List.length_take_of_le long
  obtain ⟨k, run⟩ := head.run_name (v := ⟨[], nameLen, [], valueLen⟩) length.le valued
    (second ++ rest)
  have kept := (ParamView.run_name_value ⟨[] ++ name.take nameLen.toNat, k, [], valueLen⟩
    (second ++ rest)).1.length_le
  rw [List.append_assoc, run]
  rwa [List.nil_append, length] at kept

theorem run_longValue {name value n v : List UInt8} (left : Encoded name n)
    (right : Encoded value v) (room : name.length < nameLen.toNat) (valued : 0 < valueLen)
    (long : valueLen.toNat ≤ value.length) (rest : List UInt8) :
    valueLen.toNat ≤
      (ParamView.run ⟨[], nameLen, [], valueLen⟩ (n ++ 61 :: (v ++ rest))).1.value.length := by
  have size : 0 < valueLen.toNat := UInt8.lt_iff_toNat_lt.mp valued
  have inside : valueLen.toNat - 1 < value.length := by omega
  obtain ⟨front, b, back, rfl, length⟩ :
      ∃ front b back, value = front ++ b :: back ∧ front.length = valueLen.toNat - 1 := by
    refine ⟨value.take (valueLen.toNat - 1), value[valueLen.toNat - 1],
      value.drop (valueLen.toNat - 1 + 1), ?_, List.length_take_of_le inside.le⟩
    rw [← List.drop_eq_getElem_cons inside, List.take_append_drop]
  obtain ⟨first, second, rfl, head, tail⟩ := right.append
  have room' : front.length < valueLen.toNat := by omega
  obtain ⟨k, -, run⟩ := run_pair left head room room' (second ++ rest)
  have kept := (tail.run_stores ⟨name, 0, front, k⟩ rest).length_le
  rw [List.append_assoc, run]
  have stored : (ParamView.store ⟨name, 0, front, k⟩ b).value = front ++ [b] := rfl
  rw [stored, List.length_append, length] at kept
  simp only [List.length_singleton] at kept
  omega

/-! ## The calls for a form -/

/-- A pair cut to its buffers, with room for the terminators. -/
def cutYield (nameLen valueLen : UInt8) (pair : List UInt8 × List UInt8) : Yield :=
  ⟨1, pair.1.take (nameLen.toNat - 1) ++ [0], pair.2.take (valueLen.toNat - 1) ++ [0]⟩

theorem cutYield_fits {pair : List UInt8 × List UInt8} (room : pair.1.length < nameLen.toNat)
    (room' : pair.2.length < valueLen.toNat) : cutYield nameLen valueLen pair = pairYield pair := by
  rw [cutYield, pairYield, List.take_of_length_le (by omega), List.take_of_length_le (by omega)]

theorem cutYield_length (pair : List UInt8 × List UInt8) (named : 0 < nameLen)
    (valued : 0 < valueLen) :
    (cutYield nameLen valueLen pair).name.length ≤ nameLen.toNat ∧
      (cutYield nameLen valueLen pair).value.length ≤ valueLen.toNat := by
  have size : 0 < nameLen.toNat := UInt8.lt_iff_toNat_lt.mp named
  have size' : 0 < valueLen.toNat := UInt8.lt_iff_toNat_lt.mp valued
  simp only [cutYield, List.length_append, List.length_take, List.length_singleton]
  omega

theorem cutYield_room {name value n v rest : List UInt8} {s u : State} (left : Encoded name n)
    (right : Encoded value v) (readable : Readable (n ++ 61 :: (v ++ rest))) (named : 0 < nameLen)
    (valued : 0 < valueLen) (url : s.UrlEncoded)
    (holds : BodyHolds (n ++ 61 :: (v ++ rest)) s.reader s.request)
    (call : s.Yields cfg nameLen valueLen (cutYield nameLen valueLen (name, value)) u) :
    name.length < nameLen.toNat ∧ value.length < valueLen.toNat := by
  rcases run : ParamView.run ⟨[], nameLen, [], valueLen⟩ (n ++ 61 :: (v ++ rest)) with ⟨w, left'⟩
  obtain ⟨u', call', -⟩ :=
    parseParam_readable (body_source cfg) readable nameLen valueLen url holds run
  have same := (call.unique call').1
  obtain ⟨first, second⟩ := cutYield_length (name, value) named valued
  rw [same] at first second
  simp only [yieldOf, List.length_append, List.length_singleton] at first second
  have room : name.length < nameLen.toNat := by
    by_contra long
    have kept := run_longName left valued (Nat.le_of_not_lt long) (61 :: (v ++ rest))
    rw [run] at kept
    exact absurd first (Nat.not_le.mpr (Nat.lt_succ_of_le kept))
  refine ⟨room, ?_⟩
  by_contra long
  have kept := run_longValue left right room valued (Nat.le_of_not_lt long) rest
  rw [run] at kept
  exact absurd second (Nat.not_le.mpr (Nat.lt_succ_of_le kept))

theorem cutCalls_fit {pairs : List (List UInt8 × List UInt8)} {text : List UInt8} {s u : State}
    (form : EncodedForm pairs text) (names : ∀ pair ∈ pairs, pair.1 ≠ []) (named : 0 < nameLen)
    (valued : 0 < valueLen) (left : BodyHolds text s.reader s.request) (url : s.UrlEncoded)
    (calls : ParamCalls cfg nameLen valueLen s (pairs.map (cutYield nameLen valueLen)) u) :
    FitPairs nameLen valueLen pairs := by
  induction form generalizing s with
  | nil => simp [FitPairs]
  | @one name value n v name' value' =>
      cases calls with
      | cons call rest =>
        have readable := (EncodedForm.one name' value').readable
        rw [← List.append_nil v] at readable left
        have room := cutYield_room name' value' readable named valued url left call
        simpa [FitPairs, names (name, value) (by simp)] using room
  | @cons name value n v text pair pairs name' value' rest ih =>
      cases calls with
      | cons call calls =>
        have readable := (EncodedForm.cons name' value' rest).readable
        have nonempty := names (name, value) (by simp)
        have room := cutYield_room name' value' readable named valued url left call
        obtain ⟨s', call', more, url'⟩ :=
          bodyCall_pair name' value' nonempty room.1 room.2 readable left url
        obtain ⟨-, rfl⟩ := call.unique call'
        have fit := ih (fun pair member => names pair (by simp [member])) more url' calls
        intro pair member
        rcases List.mem_cons.mp member with rfl | member
        · exact ⟨nonempty, room⟩
        · exact fit pair member

/-- Each call yields the next pair, cut where its buffers end. -/
def CutCalls (cfg : Config) (nameLen valueLen : UInt8) (s : State)
    (pairs : List (List UInt8 × List UInt8)) : Prop :=
  ∃ u, ParamCalls cfg nameLen valueLen s (pairs.map (cutYield nameLen valueLen)) u

/-- Long pairs are cut only if there are none. -/
theorem formParams_cut_iff {s t : State} {conn : Connection} {callback : Callback}
    {args : CallbackArgs} {text : RequestText} {pairs : List (List UInt8 × List UInt8)}
    {body : List UInt8} (encoded : EncodedForm pairs body) (names : ∀ pair ∈ pairs, pair.1 ≠ [])
    (named : 2 ≤ nameLen) (valued : 2 ≤ valueLen) (reachable : Reachable cfg s)
    (other : text.method ∈ [.post, .put, .patch, .delete]) (form : text.IsForm cfg)
    (input : conn.input = sends text.render ++ sends body) (final : conn.atEnd.ret ≤ 0)
    (entry : CallsBack cfg conn s callback args t) :
    CutCalls cfg nameLen valueLen t pairs ↔
      ∀ pair ∈ pairs, pair.1.length < nameLen.toNat ∧ pair.2.length < valueLen.toNat := by
  have two : ∀ n : UInt8, 2 ≤ n → 0 < n := fun n two => UInt8.lt_of_lt_of_le (by decide) two
  obtain ⟨left, url⟩ := (entry.entered reachable text input).body other form
    (fun b member => (encoded.plain_bytes b member).2) final
  constructor
  · rintro ⟨u, calls⟩ pair member
    exact (cutCalls_fit encoded names (two _ named) (two _ valued) left url calls pair member).2
  · intro short
    obtain ⟨u, calls, -⟩ := bodyCalls_pairs encoded
      (fun pair member => ⟨names pair member, short pair member⟩) left url
    have cuts : pairs.map (cutYield nameLen valueLen) = pairs.map pairYield :=
      List.map_congr_left fun pair member =>
        cutYield_fits (short pair member).1 (short pair member).2
    exact ⟨u, cuts ▸ calls⟩

theorem longForm : EncodedForm [(ascii "abc", [49]), (ascii "b", [50])] (ascii "abc=1&b=2") :=
  .cons (.plain (by decide) (.plain (by decide) (.plain (by decide) .nil)))
    (.plain (by decide) .nil) (.one (.plain (by decide) .nil) (.plain (by decide) .nil))

theorem formParams_cut_lamp : ∃ callback args t,
    CallsBack (.default .none) (.ofBytes (formRequest.render ++ ascii "abc=1&b=2")) restServer
      callback args t ∧
    (CutCalls (.default .none) 4 2 t [(ascii "abc", [49]), (ascii "b", [50])] ↔
      ∀ pair ∈ [(ascii "abc", [49]), (ascii "b", [(50 : UInt8)])],
        pair.1.length < 4 ∧ pair.2.length < 2) := by
  obtain ⟨callback, args, t, entry⟩ := restServer_calls formRequest (ascii "abc=1&b=2") (by simp)
  exact ⟨callback, args, t, entry, formParams_cut_iff longForm (by simp [ascii]) (by decide)
    (by decide) (reachable_setUp _ _) (by decide) (by decide) (List.map_append ..) (by decide) entry⟩

theorem formParams_mixed : ∃ callback args t y u,
    CallsBack (.default .none) (.ofBytes (formRequest.render ++ ascii "abc=1&b=2")) restServer
      callback args t ∧
    EncodedForm [(ascii "abc", [49]), (ascii "b", [50])] (ascii "abc=1&b=2") ∧
    t.Yields (.default .none) 2 2 y u ∧ y.value = ascii "c1" ++ [0] ∧
    ¬ CutCalls (.default .none) 2 2 t [(ascii "abc", [49]), (ascii "b", [50])] := by
  obtain ⟨callback, args, t, entry⟩ := restServer_calls formRequest (ascii "abc=1&b=2") (by simp)
  obtain ⟨left, url⟩ := (entry.entered (reachable_setUp _ _) formRequest
    (show _ = _ ++ sends (ascii "abc=1&b=2") from List.map_append ..)).body (by decide) (by decide)
    (fun b member => (longForm.plain_bytes b member).2) (by decide)
  have run : ParamView.run ⟨[], 2, [], 2⟩ (ascii "abc=1&b=2") =
      (⟨ascii "ab", 0, ascii "c1", 0⟩, some (ascii "&b=2")) := by
    simp [ascii, ParamView.run, ParamView.take, ParamView.store, charToken, isSpace]
  obtain ⟨u, call, -⟩ := parseParam_readable (body_source _) longForm.readable 2 2 url left run
  refine ⟨callback, args, t, _, u, entry, longForm, call, rfl, ?_⟩
  rintro ⟨u', calls⟩
  have fit := cutCalls_fit longForm (by simp [ascii]) (by decide) (by decide) left url calls
  exact absurd (fit (ascii "abc", [49]) (by simp)).2.1 (by decide)

end AttoHTTP
