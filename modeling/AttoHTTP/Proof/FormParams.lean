import AttoHTTP.Proof.ParamCalls

namespace AttoHTTP
open Library Comp

variable {cfg : Config} {nameLen valueLen : UInt8}

theorem bodyText_plain {text : List UInt8} (plain : ∀ b ∈ text, isSpace b = false ∧ b ≠ 63) :
    bodyText text = text := by
  refine List.filter_eq_self.mpr fun b member => ?_
  simp [plain b member]

def RequestText.IsForm (cfg : Config) (text : RequestText) : Prop :=
  (text.headers.foldl (Header.negotiate cfg) ⟨1, .textHtml⟩).contenttype =
    .applicationXWwwFormUrlencoded

instance (cfg : Config) (text : RequestText) : Decidable (text.IsForm cfg) :=
  inferInstanceAs (Decidable (_ = _))

theorem RequestText.Entered.body {text : RequestText} {conn : Connection} {s t : State}
    {body : List UInt8} (h : text.Entered cfg (sends body) conn s t)
    (other : text.method ∈ [.post, .put, .patch, .delete]) (form : text.IsForm cfg)
    (plain : ∀ b ∈ body, isSpace b = false ∧ b ≠ 63) (final : conn.atEnd.ret ≤ 0) :
    BodyHolds body t.reader t.request ∧ t.UrlEncoded := by
  have method := h.method
  refine ⟨⟨?_, h.atEnd ▸ final, 10 :: body, h.pending, ?_⟩, .inr ⟨?_, ?_⟩⟩
  · intro get
    rw [← method, get] at other
    exact absurd other (by decide)
  · rw [bodyText, List.filter_cons_of_neg (by decide)]
    exact bodyText_plain plain
  · rwa [method]
  · rw [h.contenttype]
    exact form

theorem RequestText.Entered.query {text : RequestText} {conn : Connection} {s t : State}
    {body : List GetByte} (h : text.Entered cfg body conn s t) (get : text.method = .get)
    {path query : List UInt8}
    (target : text.target.take (cfg.urlBufferSize - 1) = path ++ 63 :: query) (last : 63 ∉ query) :
    QueryHolds cfg (path.length + 1) (path ++ 63 :: query).length query t.reader t.request ∧
      t.UrlEncoded := by
  have size := cfg.url_ge
  have method := h.method
  have urlParams := h.urlParams
  have urlParamsStart := h.urlParamsStart
  have cells := h.cells
  have start := lastQuery_of_query path last
  have length : (path ++ 63 :: query).length = path.length + 1 + query.length := by
    simp
    omega
  have inside : (path ++ 63 :: query).length < cfg.urlBufferSize := by
    rw [← target, List.length_take]
    omega
  rw [target, start] at urlParams urlParamsStart
  rw [target] at cells
  refine ⟨⟨⟨path.length + 1, ⟨method.trans get, urlParams, urlParamsStart, ?_, le_rfl⟩, length.symm,
    fun i below => ?_⟩, ?_, inside⟩, .inl (method.trans get)⟩
  · rw [h.paramLog, readPlaces, Nat.sub_self]
    rfl
  · rw [cells _ _ start (by omega), Mem.put_of_lt _ (by simp; omega),
      List.getElem_append_left (by simp; omega)]
    have cell : (path ++ 63 :: query)[path.length + 1 + i]? = some query[i] := by
      rw [List.getElem?_append_right (by omega),
        show path.length + 1 + i - path.length = i + 1 by omega, List.getElem?_cons_succ]
      exact List.getElem?_eq_getElem below
    obtain ⟨_, cell⟩ := List.getElem?_eq_some_iff.mp cell
    have other : query[i] ≠ 63 := fun same => last (same ▸ List.getElem_mem below)
    simp only [urlCells, List.getElem_map, cell, if_neg other]
  · rw [cells _ _ start (by omega), Mem.put_of_lt _ (by simp)]
    simp

/-- As long as the terminator of the query has not been read, the calls in a GET yield what the
calls for the same text in the body of a POST yield, and the next call does so too. -/
theorem query_agrees_body {s s' t t' u : State} {conn conn' : Connection}
    {callback callback' : Callback} {args args' : CallbackArgs} {text text' : RequestText}
    {path query : List UInt8} {rest : List GetByte} {ys : List Yield}
    (plain : ∀ b ∈ query, isSpace b = false ∧ b ≠ 63 ∧ b ≠ 0) (escapes : wellEscaped query = true)
    (reachable : Reachable cfg s) (get : text.method = .get)
    (target : text.target = path ++ 63 :: query)
    (fits : text.target.length ≤ cfg.urlBufferSize - 1)
    (input : conn.input = sends text.render ++ rest)
    (entry : CallsBack cfg conn s callback args t)
    (reachable' : Reachable cfg s') (post : text'.method = .post) (form : text'.IsForm cfg)
    (input' : conn'.input = sends text'.render ++ sends query) (final : conn'.atEnd.ret ≤ 0)
    (entry' : CallsBack cfg conn' s' callback' args' t')
    (calls : ParamCalls cfg nameLen valueLen t ys u)
    (inside : .url text.target.length ∉ u.request.paramLog) :
    ∃ u' y v v', ParamCalls cfg nameLen valueLen t' ys u' ∧ u.Yields cfg nameLen valueLen y v ∧
      u'.Yields cfg nameLen valueLen y v' := by
  have left := (entry.entered reachable text input).query get
    ((List.take_of_length_le fits).trans target) fun mark => (plain 63 mark).2.1 rfl
  rw [← target] at left
  have left' := (entry'.entered reachable' text' input').body (by rw [post]; decide) form
    (fun b member => ⟨(plain b member).1, (plain b member).2.1⟩) final
  have start : InStep cfg (path.length + 1) text.target.length query t t' :=
    ⟨⟨fun b member => (plain b member).2.2, escapesEnd_of_wellEscaped escapes⟩,
      left.1, left'.1, left.2, left'.2⟩
  obtain ⟨u', more, calls', step⟩ := start.calls calls inside
  obtain ⟨y, v, v', call, call', -⟩ := step.call nameLen valueLen
  exact ⟨u', y, v, v', calls', call, call'⟩

theorem query_agrees_body_lamp : ∃ callback args t callback' args' t' u' y v v',
    CallsBack (.default .none) (.ofBytes (queryRequest.render ++ [])) restServer callback args t ∧
    CallsBack (.default .none) (.ofBytes (formRequest.render ++ ascii "on=%31")) restServer callback'
      args' t' ∧
    ParamCalls (.default .none) 8 8 t' [] u' ∧ t.Yields (.default .none) 8 8 y v ∧
    u'.Yields (.default .none) 8 8 y v' := by
  obtain ⟨callback, args, t, entry⟩ := restServer_calls queryRequest [] (by simp)
  obtain ⟨callback', args', t', entry'⟩ := restServer_calls formRequest (ascii "on=%31") (by simp)
  have reachable : Reachable (.default .none) restServer := reachable_setUp _ _
  have input : (Connection.ofBytes (queryRequest.render ++ [])).input =
      sends queryRequest.render ++ [] := List.map_append ..
  have target : queryRequest.target = ascii "/lamp" ++ 63 :: ascii "on=%31" := rfl
  have log : t.request.paramLog = [] := (entry.entered reachable queryRequest input).paramLog
  obtain ⟨u', y, v, v', calls, call, call'⟩ := query_agrees_body (by decide) (by decide) reachable
    rfl target (by decide) input entry reachable rfl (by decide) (List.map_append ..) (by decide)
    entry' (.nil t) (by simp [log])
  exact ⟨callback, args, t, callback', args', t', u', y, v, v', entry, entry', calls, call, call'⟩

/-! ## Encoding -/

def unreserved (b : UInt8) : Bool :=
  (65 ≤ b && b ≤ 90) || (97 ≤ b && b ≤ 122) || (48 ≤ b && b ≤ 57) ||
    b == 45 || b == 46 || b == 95 || b == 126

/-- A percent-encoding of the bytes; the digits of an escape may be in either case. -/
inductive Encoded : List UInt8 → List UInt8 → Prop
  | nil : Encoded [] []
  | plain {b : UInt8} {bytes text : List UInt8} (free : unreserved b = true)
      (rest : Encoded bytes text) : Encoded (b :: bytes) (b :: text)
  | escape {b hi lo : UInt8} {bytes text : List UInt8} (other : unreserved b = false)
      (high : hexDigit hi = some (b.toNat / 16)) (low : hexDigit lo = some (b.toNat % 16))
      (rest : Encoded bytes text) : Encoded (b :: bytes) (37 :: hi :: lo :: text)

inductive EncodedForm : List (List UInt8 × List UInt8) → List UInt8 → Prop
  | nil : EncodedForm [] []
  | one {name value n v : List UInt8} (left : Encoded name n) (right : Encoded value v) :
      EncodedForm [(name, value)] (n ++ 61 :: v)
  | cons {name value n v text : List UInt8} {pair : List UInt8 × List UInt8}
      {pairs : List (List UInt8 × List UInt8)} (left : Encoded name n) (right : Encoded value v)
      (rest : EncodedForm (pair :: pairs) text) :
      EncodedForm ((name, value) :: pair :: pairs) (n ++ 61 :: (v ++ 38 :: text))

theorem hexDigit_plain : ∀ c, (hexDigit c).isSome = true →
    c ≠ 0 ∧ isSpace c = false ∧ c ≠ 63 ∧ c ≠ 43 ∧ c ≠ 45 :=
  forall_byte (by decide +kernel)

theorem unreserved_plain : ∀ c, unreserved c = true →
    c ≠ 0 ∧ isSpace c = false ∧ c ≠ 63 ∧ c ≠ 37 ∧ c ≠ 61 ∧ c ≠ 38 :=
  forall_byte (by decide +kernel)

theorem escaped_digits {b hi lo : UInt8} (high : hexDigit hi = some (b.toNat / 16))
    (low : hexDigit lo = some (b.toNat % 16)) : escaped hi lo = b := by
  have first := hexDigit_plain hi (by rw [high]; rfl)
  have join : 16 * (b.toNat / 16) + b.toNat % 16 = b.toNat := Nat.div_add_mod ..
  have text : [hi, lo].dropWhile isSpace = [hi, lo] := by simp [first.2.1]
  have value : strtol16 [hi, lo] = b.toNat := by
    simp [strtol16, text, first.2.2.2.1, first.2.2.2.2, hexPrefixValue, high, low, join]
  rw [escaped, value]
  exact forall_byte (p := fun b => UInt8.ofInt b.toNat = b) (by decide +kernel) b

/-! ### Every byte of an encoding is an ordinary one -/

theorem Encoded.plain_bytes {bytes text : List UInt8} (h : Encoded bytes text) :
    ∀ b ∈ text, b ≠ 0 ∧ isSpace b = false ∧ b ≠ 63 := by
  induction h with
  | nil => simp
  | plain free rest ih =>
      have first := unreserved_plain _ free
      intro b member
      rcases List.mem_cons.mp member with rfl | member
      · exact ⟨first.1, first.2.1, first.2.2.1⟩
      · exact ih b member
  | escape other high low rest ih =>
      have first := hexDigit_plain _ (show (hexDigit _).isSome = true by rw [high]; rfl)
      have second := hexDigit_plain _ (show (hexDigit _).isSome = true by rw [low]; rfl)
      intro b member
      simp only [List.mem_cons] at member
      rcases member with rfl | rfl | rfl | member
      · decide
      · exact ⟨first.1, first.2.1, first.2.2.1⟩
      · exact ⟨second.1, second.2.1, second.2.2.1⟩
      · exact ih b member

theorem escapesEnd_char {c : UInt8} (plain : c ≠ 37) (text : List UInt8) :
    escapesEnd (c :: text) = escapesEnd text := by
  rw [escapesEnd.eq_def]
  exact if_neg plain

theorem Encoded.escapesEnd {bytes text rest : List UInt8} (h : Encoded bytes text)
    (last : escapesEnd rest = true) : escapesEnd (text ++ rest) = true := by
  induction h with
  | nil => exact last
  | plain free more ih =>
      rw [List.cons_append, escapesEnd_char (unreserved_plain _ free).2.2.2.1]
      exact ih
  | escape other high low more ih => exact ih

theorem EncodedForm.plain_bytes {pairs : List (List UInt8 × List UInt8)} {text : List UInt8}
    (h : EncodedForm pairs text) : ∀ b ∈ text, b ≠ 0 ∧ isSpace b = false ∧ b ≠ 63 := by
  induction h with
  | nil => simp
  | one left right =>
      intro b member
      simp only [List.mem_append, List.mem_cons] at member
      rcases member with member | rfl | member
      · exact left.plain_bytes b member
      · decide
      · exact right.plain_bytes b member
  | cons left right rest ih =>
      intro b member
      simp only [List.mem_append, List.mem_cons] at member
      rcases member with member | rfl | member | rfl | member
      · exact left.plain_bytes b member
      · decide
      · exact right.plain_bytes b member
      · decide
      · exact ih b member

theorem EncodedForm.readable {pairs : List (List UInt8 × List UInt8)} {text : List UInt8}
    (h : EncodedForm pairs text) : Readable text := by
  refine ⟨fun b member => (h.plain_bytes b member).1, ?_⟩
  induction h with
  | nil => rfl
  | @one name value n v left right =>
      have last : AttoHTTP.escapesEnd (v ++ []) = true := right.escapesEnd rfl
      refine left.escapesEnd ?_
      rwa [escapesEnd_char (by decide), ← List.append_nil v]
  | cons left right rest ih =>
      refine left.escapesEnd ?_
      rw [escapesEnd_char (by decide)]
      refine right.escapesEnd ?_
      rw [escapesEnd_char (by decide)]
      exact ih

/-! ### Reading an encoding -/

theorem ParamView.run_char (v : ParamView) {c : UInt8} (plain : c ≠ 37) (text : List UInt8) :
    v.run (c :: text) = if (v.take (charToken c)).2 then (v.take (charToken c)).1.run text
      else ((v.take (charToken c)).1, some text) := by
  rw [ParamView.run.eq_def]
  exact if_neg plain

theorem charToken_unreserved {c : UInt8} (free : unreserved c = true) : charToken c = .char c := by
  obtain ⟨-, space, -, -, equals, ampersand⟩ := unreserved_plain c free
  simp [charToken, space, equals, ampersand]

theorem Encoded.run_step {b : UInt8} {bytes text : List UInt8} (h : Encoded (b :: bytes) text)
    (v : ParamView) (rest : List UInt8) (more : 0 < (v.store b).valueLen) :
    ∃ text', Encoded bytes text' ∧ v.run (text ++ rest) = (v.store b).run (text' ++ rest) := by
  have again : (v.take (.char b)).2 = true := decide_eq_true more
  cases h with
  | plain free left =>
      refine ⟨_, left, ?_⟩
      rw [List.cons_append, v.run_char (unreserved_plain _ free).2.2.2.1, charToken_unreserved free,
        if_pos again]
      rfl
  | escape other high low left =>
      refine ⟨_, left, ?_⟩
      rw [← escaped_digits high low] at again ⊢
      exact if_pos again

theorem Encoded.run_name {bytes text : List UInt8} {v : ParamView} (h : Encoded bytes text)
    (room : bytes.length ≤ v.nameLen.toNat) (value : 0 < v.valueLen) (rest : List UInt8) :
    ∃ n, v.run (text ++ rest) = ParamView.run ⟨v.name ++ bytes, n, v.value, v.valueLen⟩ rest := by
  induction bytes generalizing v text with
  | nil =>
      cases h
      exact ⟨v.nameLen, by simp⟩
  | cons b bytes ih =>
      rw [List.length_cons] at room
      have named : 0 < v.nameLen := UInt8.lt_iff_toNat_lt.mpr (by simp; omega)
      have store : v.store b = ⟨v.name ++ [b], v.nameLen - 1, v.value, v.valueLen⟩ := if_pos named
      obtain ⟨text', left, step⟩ := h.run_step v rest (by rwa [store])
      have one := sub_one_toNat (UInt8.pos_iff_ne_zero.mp named)
      rw [store] at step
      obtain ⟨n, run⟩ := ih (v := ⟨v.name ++ [b], v.nameLen - 1, v.value, v.valueLen⟩) left
        (by dsimp only; omega) value
      exact ⟨n, by rw [step, run, List.append_assoc]; rfl⟩

theorem Encoded.run_value {bytes text : List UInt8} {v : ParamView} (h : Encoded bytes text)
    (named : v.nameLen = 0) (room : bytes.length < v.valueLen.toNat) (rest : List UInt8) :
    ∃ n, 0 < n ∧ v.run (text ++ rest) = ParamView.run ⟨v.name, 0, v.value ++ bytes, n⟩ rest := by
  induction bytes generalizing v text with
  | nil =>
      cases h
      exact ⟨v.valueLen, UInt8.lt_iff_toNat_lt.mpr room, by simp [← named]⟩
  | cons b bytes ih =>
      have store : v.store b = ⟨v.name, v.nameLen, v.value ++ [b], v.valueLen - 1⟩ := by
        rw [ParamView.store, if_neg (by simp [named])]
      rw [List.length_cons] at room
      have one := sub_one_toNat (n := v.valueLen) (by intro zero; simp [zero] at room)
      have more : bytes.length < (v.valueLen - 1).toNat := by omega
      obtain ⟨text', left, step⟩ := h.run_step v rest (by
        rw [store]
        exact UInt8.lt_iff_toNat_lt.mpr (by simp; omega))
      rw [store] at step
      obtain ⟨n, positive, run⟩ := ih (v := ⟨v.name, v.nameLen, v.value ++ [b], v.valueLen - 1⟩) left
        named more
      exact ⟨n, positive, by rw [step, run, List.append_assoc]; rfl⟩

theorem run_pair {name value n v : List UInt8} (left : Encoded name n) (right : Encoded value v)
    (room : name.length < nameLen.toNat) (room' : value.length < valueLen.toNat)
    (rest : List UInt8) :
    ∃ k, 0 < k ∧ ParamView.run ⟨[], nameLen, [], valueLen⟩ (n ++ 61 :: (v ++ rest)) =
      ParamView.run ⟨name, 0, value, k⟩ rest := by
  have positive : 0 < valueLen := UInt8.lt_iff_toNat_lt.mpr (by simp; omega)
  obtain ⟨m, first⟩ := left.run_name (v := ⟨[], nameLen, [], valueLen⟩) room.le positive
    (61 :: (v ++ rest))
  obtain ⟨k, more, second⟩ := right.run_value (v := ⟨name, 0, [], valueLen⟩) rfl room' rest
  refine ⟨k, more, ?_⟩
  rw [first, ParamView.run_char _ (by decide), show charToken 61 = .divide from rfl]
  exact (if_pos (decide_eq_true positive)).trans second

def pairYield (pair : List UInt8 × List UInt8) : Yield := ⟨1, pair.1 ++ [0], pair.2 ++ [0]⟩

/-- The names and values leave room for their terminators. -/
def FitPairs (nameLen valueLen : UInt8) (pairs : List (List UInt8 × List UInt8)) : Prop :=
  ∀ pair ∈ pairs, pair.1 ≠ [] ∧ pair.1.length < nameLen.toNat ∧ pair.2.length < valueLen.toNat

theorem bodyCalls_end {s : State} (named : nameLen ≠ 0) (left : BodyHolds [] s.reader s.request)
    (url : s.UrlEncoded) : ∃ y u, s.Yields cfg nameLen valueLen y u ∧ y.ret = 0 := by
  obtain ⟨u, call, -⟩ := parseParam_readable (body_source cfg) ⟨by simp, rfl⟩ nameLen valueLen url
    left rfl
  exact ⟨_, u, call, if_neg named⟩

theorem bodyCall_pair {name value n v text : List UInt8} {s : State} (left : Encoded name n)
    (right : Encoded value v) (nonempty : name ≠ []) (room : name.length < nameLen.toNat)
    (room' : value.length < valueLen.toNat) (readable : Readable (n ++ 61 :: (v ++ 38 :: text)))
    (holds : BodyHolds (n ++ 61 :: (v ++ 38 :: text)) s.reader s.request) (url : s.UrlEncoded) :
    ∃ u, s.Yields cfg nameLen valueLen (pairYield (name, value)) u ∧
      BodyHolds text u.reader u.request ∧ u.UrlEncoded := by
  obtain ⟨k, positive, run⟩ := run_pair left right room room' (38 :: text)
  have stop : ParamView.run ⟨name, 0, value, k⟩ (38 :: text) =
      (⟨name, 0, value, k⟩, some text) := by
    rw [ParamView.run_char _ (by decide), show charToken 38 = .separate from rfl]
    exact if_neg (by simp [ParamView.take, nonempty])
  obtain ⟨u, call, url', more, -⟩ := parseParam_readable (body_source cfg) readable nameLen valueLen
    url holds (run.trans stop)
  exact ⟨u, call, (more text rfl).2, url'⟩

theorem bodyCalls_pairs {pairs : List (List UInt8 × List UInt8)} {text : List UInt8} {s : State}
    (form : EncodedForm pairs text) (fit : FitPairs nameLen valueLen pairs)
    (left : BodyHolds text s.reader s.request) (url : s.UrlEncoded) :
    ∃ u, ParamCalls cfg nameLen valueLen s (pairs.map pairYield) u ∧
      BodyHolds [] u.reader u.request ∧ u.UrlEncoded := by
  induction form generalizing s with
  | nil => exact ⟨s, .nil s, left, url⟩
  | @one name value n v name' value' =>
      obtain ⟨-, room, room'⟩ := fit (name, value) (by simp)
      obtain ⟨k, -, run⟩ := run_pair name' value' room room' []
      rw [List.append_nil] at run
      obtain ⟨u, call, url', -, past⟩ := parseParam_readable (body_source cfg)
        (EncodedForm.one name' value').readable nameLen valueLen url left
        (run.trans rfl)
      exact ⟨u, .cons call (.nil u), past rfl, url'⟩
  | @cons name value n v text pair pairs name' value' rest ih =>
      obtain ⟨nonempty, room, room'⟩ := fit (name, value) (by simp)
      obtain ⟨v, call, more, url'⟩ := bodyCall_pair name' value' nonempty room room'
        (EncodedForm.cons name' value' rest).readable left url
      obtain ⟨u, calls, last⟩ := ih (fun pair member => fit pair (by simp [member])) more url'
      exact ⟨u, .cons call calls, last⟩

/-- The calls in a request with a form yield the pairs that have been encoded, and then nothing. -/
theorem formParams_decoded {s t : State} {conn : Connection} {callback : Callback}
    {args : CallbackArgs} {text : RequestText} {pairs : List (List UInt8 × List UInt8)}
    {body : List UInt8} (encoded : EncodedForm pairs body) (fit : FitPairs nameLen valueLen pairs)
    (named : nameLen ≠ 0) (reachable : Reachable cfg s)
    (other : text.method ∈ [.post, .put, .patch, .delete]) (form : text.IsForm cfg)
    (input : conn.input = sends text.render ++ sends body) (final : conn.atEnd.ret ≤ 0)
    (entry : CallsBack cfg conn s callback args t) :
    ∃ u y v, ParamCalls cfg nameLen valueLen t (pairs.map pairYield) u ∧
      u.Yields cfg nameLen valueLen y v ∧ y.ret = 0 := by
  obtain ⟨left, url⟩ := (entry.entered reachable text input).body other form
    (fun b member => (encoded.plain_bytes b member).2) final
  obtain ⟨u, calls, rest, url'⟩ := bodyCalls_pairs encoded fit left url
  obtain ⟨y, v, last, ret⟩ := bodyCalls_end named rest url'
  exact ⟨u, y, v, calls, last, ret⟩

theorem formParams_decoded_lamp : ∃ callback args t u y v,
    CallsBack (.default .none) (.ofBytes (formRequest.render ++ ascii "on=%26&b=1")) restServer callback
      args t ∧
    ParamCalls (.default .none) 8 8 t [⟨1, ascii "on" ++ [0], [38, 0]⟩, ⟨1, ascii "b" ++ [0], [49, 0]⟩] u ∧
    u.Yields (.default .none) 8 8 y v ∧ y.ret = 0 := by
  obtain ⟨callback, args, t, entry⟩ := restServer_calls formRequest (ascii "on=%26&b=1") (by simp)
  have encoded : EncodedForm [(ascii "on", [38]), (ascii "b", [49])] (ascii "on=%26&b=1") :=
    .cons (.plain (by decide) (.plain (by decide) .nil))
      (.escape (by decide) (by decide) (by decide) .nil)
      (.one (.plain (by decide) .nil) (.plain (by decide) .nil))
  have fit : FitPairs 8 8 [(ascii "on", [38]), (ascii "b", [49])] := by simp [FitPairs, ascii]
  obtain ⟨u, y, v, calls, last, ret⟩ := formParams_decoded encoded fit (by decide)
    (reachable_setUp _ _) (by decide) (by decide) (List.map_append ..) (by decide) entry
  exact ⟨callback, args, t, u, y, v, entry, calls, last, ret⟩

theorem formParams_noRoom : ∃ callback args t y u,
    CallsBack (.default .none) (.ofBytes (formRequest.render ++ [])) restServer callback args t ∧
    EncodedForm [] [] ∧ FitPairs 0 1 [] ∧ t.Yields (.default .none) 0 1 y u ∧ y.ret ≠ 0 := by
  obtain ⟨callback, args, t, entry⟩ := restServer_calls formRequest [] (by simp)
  obtain ⟨left, url⟩ := (entry.entered (reachable_setUp _ _) formRequest
    (show _ = _ ++ sends [] from List.map_append ..)).body (by decide) (by decide) (by simp)
    (by decide)
  obtain ⟨u, call, -⟩ := parseParam_readable (body_source _) ⟨by simp, rfl⟩ 0 1 url left rfl
  exact ⟨callback, args, t, _, u, entry, .nil, fun pair member => absurd member (by simp), call, by
    decide⟩

end AttoHTTP
