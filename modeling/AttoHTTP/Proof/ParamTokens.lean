import AttoHTTP.Proof.Parameters

/-!
# URL parameters as tokens

One round of `attoHTTPParseURLParam` reads a token, which is a character, an escape or one of the
delimiters, and then stores it. What the tokens are made of depends on the place they are read from;
what a parameter is made of depends on the tokens only.
-/

namespace AttoHTTP
open Library Comp

inductive ParamToken
  | stop
  | divide
  | separate
  | char (b : UInt8)
deriving DecidableEq

def classify (cfg : Config) (t : UrlParamLoop) : Comp (ParamToken × UrlParamLoop) :=
  if 0 < t.ret ∧ t.c ≠ 0 then
    if t.c = 61 then pure (.divide, t)
    else if t.c = 38 ∨ isSpace t.c then pure (.separate, t)
    else if t.c = 37 then do
      let t ← decodeEscape cfg t
      pure (.char t.c, t)
    else pure (.char t.c, t)
  else pure (.stop, t)

def UrlParamLoop.got (t : UrlParamLoop) (g : ParamGot) : UrlParamLoop :=
  { t with ret := g.ret.toInt8, c := g.c, reader := g.reader, request := g.request }

def paramToken (cfg : Config) (t : UrlParamLoop) : Comp (ParamToken × UrlParamLoop) := do
  let g ← parseURLParamChar cfg t.c t.reader t.request
  classify cfg (t.got g)

def UrlParamLoop.take (t : UrlParamLoop) : ParamToken → UrlParamLoop × Bool
  | .stop => (t, false)
  | .divide => ({ t with nameLen := 0 }, 0 < t.valueLen)
  | .separate => (t, t.count = 0 && 0 < t.valueLen)
  | .char _ => (storeParamChar t, 0 < (storeParamChar t).valueLen)

theorem storeParamChar_ret (t : UrlParamLoop) : (storeParamChar t).ret = t.ret := by
  unfold storeParamChar
  split <;> rfl

theorem decodeEscape_ret {cfg : Config} {t t' : UrlParamLoop}
    (h : (decodeEscape cfg t).Returns t') : t'.ret = t.ret := by
  obtain ⟨a, first, h⟩ := returns_bind.mp h
  obtain ⟨b, second, h⟩ := returns_bind.mp h
  rw [returns_pure.mp h]

theorem classify_take {cfg : Config} {u : UrlParamLoop} {p : UrlParamLoop × Bool} :
    (if 0 < u.ret ∧ u.c ≠ 0 then
        if u.c = 61 then pure ({ u with nameLen := 0 }, 0 < u.valueLen && u.ret ≠ 0)
        else if u.c = 38 ∨ isSpace u.c then
          pure (if 0 < u.count then (u, false) else (u, 0 < u.valueLen && u.ret ≠ 0))
        else if u.c = 37 then do
          let t ← decodeEscape cfg u
          pure (storeParamChar t, 0 < (storeParamChar t).valueLen && (storeParamChar t).ret ≠ 0)
        else pure (storeParamChar u, 0 < (storeParamChar u).valueLen && (storeParamChar u).ret ≠ 0)
      else pure (u, false) : Comp (UrlParamLoop × Bool)).Returns p ↔
        ∃ k, (classify cfg u).Returns k ∧ p = k.2.take k.1 := by
  unfold classify
  by_cases read : 0 < u.ret ∧ u.c ≠ 0
  · have nonzero := ret_ne_zero_of_pos read.1
    rw [if_pos read, if_pos read]
    by_cases divide : u.c = 61
    · rw [if_pos divide, if_pos divide]
      simp [UrlParamLoop.take, nonzero]
    · rw [if_neg divide, if_neg divide]
      by_cases separate : u.c = 38 ∨ isSpace u.c
      · rw [if_pos separate, if_pos separate]
        by_cases first : u.count = 0
        · simp [UrlParamLoop.take, nonzero, first]
        · simp [UrlParamLoop.take, first, Nat.pos_of_ne_zero first]
      · rw [if_neg separate, if_neg separate]
        by_cases escape : u.c = 37
        · rw [if_pos escape, if_pos escape, returns_bind]
          constructor
          · rintro ⟨t, decoded, h⟩
            refine ⟨_, decoded.bind (returns_pure.mpr rfl), ?_⟩
            rw [returns_pure.mp h]
            simp [UrlParamLoop.take, storeParamChar_ret, decodeEscape_ret decoded, nonzero]
          · rintro ⟨k, h, take⟩
            obtain ⟨t, decoded, h⟩ := returns_bind.mp h
            refine ⟨t, decoded, returns_pure.mpr ?_⟩
            rw [take, returns_pure.mp h]
            simp [UrlParamLoop.take, storeParamChar_ret, decodeEscape_ret decoded, nonzero]
        · rw [if_neg escape, if_neg escape]
          simp [UrlParamLoop.take, storeParamChar_ret, nonzero]
  · rw [if_neg read, if_neg read]
    simp [UrlParamLoop.take]

theorem urlParamBody_returns {cfg : Config} {t : UrlParamLoop} {p : UrlParamLoop × Bool} :
    (urlParamBody cfg t).Returns p ↔ ∃ k, (paramToken cfg t).Returns k ∧ p = k.2.take k.1 := by
  rw [urlParamBody, paramToken, returns_bind]
  constructor
  · rintro ⟨g, char, h⟩
    obtain ⟨k, token, take⟩ := (classify_take (u := t.got g)).mp h
    exact ⟨k, char.bind token, take⟩
  · rintro ⟨k, h, take⟩
    obtain ⟨g, char, token⟩ := returns_bind.mp h
    exact ⟨g, char, (classify_take (u := t.got g)).mpr ⟨k, token, take⟩⟩

/-! ## A parameter of a text -/

/-- What has been stored of a parameter, and the room that is left. -/
structure ParamView where
  name : List UInt8
  nameLen : UInt8
  value : List UInt8
  valueLen : UInt8

def ParamView.store (v : ParamView) (b : UInt8) : ParamView :=
  if 0 < v.nameLen then { v with name := v.name ++ [b], nameLen := v.nameLen - 1 }
  else { v with value := v.value ++ [b], valueLen := v.valueLen - 1 }

def ParamView.take (v : ParamView) : ParamToken → ParamView × Bool
  | .stop => (v, false)
  | .divide => ({ v with nameLen := 0 }, 0 < v.valueLen)
  | .separate => (v, v.name = [] && 0 < v.valueLen)
  | .char b => (v.store b, 0 < (v.store b).valueLen)

def escaped (a b : UInt8) : UInt8 := UInt8.ofInt (strtol16 [a, b])

def charToken (c : UInt8) : ParamToken :=
  if c = 61 then .divide else if c = 38 ∨ isSpace c then .separate else .char c

/-- Reads one parameter off a text; without a rest the reader has tried to read past the end. -/
def ParamView.run (v : ParamView) : List UInt8 → ParamView × Option (List UInt8)
  | [] => (v, none)
  | c :: text =>
      if c = 37 then
        match text with
        | a :: b :: text =>
            if (v.take (.char (escaped a b))).2 then (v.take (.char (escaped a b))).1.run text
            else ((v.take (.char (escaped a b))).1, some text)
        | _ => (v, none)
      else if (v.take (charToken c)).2 then (v.take (charToken c)).1.run text
      else ((v.take (charToken c)).1, some text)

def escapesEnd : List UInt8 → Bool
  | [] => true
  | c :: text =>
      if c = 37 then
        match text with
        | _ :: _ :: text => escapesEnd text
        | _ => false
      else escapesEnd text

/-- A text without NUL that the reader can take to its end. -/
structure Readable (text : List UInt8) : Prop where
  nonzero : ∀ b ∈ text, b ≠ 0
  escapes : escapesEnd text = true

theorem Readable.char {c : UInt8} {text : List UInt8} (h : Readable (c :: text)) (plain : c ≠ 37) :
    Readable text := by
  refine ⟨fun b member => h.nonzero b (by simp [member]), ?_⟩
  have escapes := h.escapes
  unfold escapesEnd at escapes
  rwa [if_neg plain] at escapes

theorem Readable.escape {a b : UInt8} {text : List UInt8} (h : Readable (37 :: a :: b :: text)) :
    Readable text :=
  ⟨fun b member => h.nonzero b (by simp [member]), h.escapes⟩

/-- The parameter comes to an escape that the end of the text cuts. -/
def ParamView.cut (v : ParamView) : List UInt8 → Bool
  | [] => false
  | c :: text =>
      if c = 37 then
        match text with
        | a :: b :: text =>
            (v.take (.char (escaped a b))).2 && (v.take (.char (escaped a b))).1.cut text
        | _ => true
      else (v.take (charToken c)).2 && (v.take (charToken c)).1.cut text

theorem Readable.uncut {text : List UInt8} (h : Readable text) (v : ParamView) :
    v.cut text = false := by
  fun_induction ParamView.cut v text with
  | case1 v => rfl
  | case2 v a b text ih => rw [ih h.escape, Bool.and_false]
  | case3 v text short =>
      have whole := h.escapes
      match text, short with
      | [], _ => cases whole
      | [_], _ => cases whole
      | a :: b :: rest, short => exact absurd rfl (short a b rest)
  | case4 v c text plain ih => rw [ih (h.char plain), Bool.and_false]

theorem ParamView.run_suffix {v : ParamView} {text rest : List UInt8}
    (left : (v.run text).2 = some rest) : rest <:+ text := by
  fun_induction ParamView.run v text with
  | case1 v => cases left
  | case2 v a b text more ih => exact (ih left).trans (List.suffix_append [37, a, b] text)
  | case3 v a b text stop => exact Option.some.inj left ▸ List.suffix_append [37, a, b] text
  | case4 v text short => cases left
  | case5 v c text plain more ih => exact (ih left).trans (List.suffix_cons c text)
  | case6 v c text plain stop => exact Option.some.inj left ▸ List.suffix_cons c text

theorem ParamView.run_rest {v : ParamView} {text rest : List UInt8}
    (left : (v.run text).2 = some rest) (h : Readable text) : Readable rest := by
  fun_induction ParamView.run v text with
  | case1 v => cases left
  | case2 v a b text more ih => exact ih left h.escape
  | case3 v a b text stop => exact Option.some.inj left ▸ h.escape
  | case4 v text short => cases left
  | case5 v c text plain more ih => exact ih left (h.char plain)
  | case6 v c text plain stop => exact Option.some.inj left ▸ h.char plain

def wellEscaped : List UInt8 → Bool
  | [] => true
  | c :: text => (c ≠ 37 || 2 ≤ text.length) && wellEscaped text

theorem escapesEnd_of_wellEscaped {text : List UInt8} (h : wellEscaped text = true) :
    escapesEnd text = true := by
  fun_induction escapesEnd text with
  | case1 => rfl
  | case2 a b text ih =>
      simp only [wellEscaped, Bool.and_eq_true] at h
      exact ih h.2.2.2
  | case3 text short =>
      match text, short with
      | [], _ => cases h
      | [_], _ => simp [wellEscaped] at h
      | a :: b :: rest, short => exact absurd rfl (short a b rest)
  | case4 c text plain ih =>
      simp only [wellEscaped, Bool.and_eq_true] at h
      exact ih h.2

/-! ## A place to read parameters from -/

/-- The reader delivers exactly such a text, from wherever it reads; `past` holds once it has been
asked for more. -/
structure CharSource (cfg : Config) (holds : List UInt8 → Reader → Request → Prop)
    (past : Reader → Request → Prop) : Prop where
  char : ∀ {b text r q}, b ≠ 0 → holds (b :: text) r q → ∃ r' q', holds text r' q' ∧
    ∀ c, (parseURLParamChar cfg c r q).Returns ⟨1, b, r', q'⟩
  done : ∀ {r q}, holds [] r q → ∀ c, ∃ g, (parseURLParamChar cfg c r q).Returns g ∧
    ¬ (0 < g.ret.toInt8 ∧ g.c ≠ 0) ∧ past g.reader g.request
  enter : ∀ {text r q}, holds text r q → holds text r.enter q

structure ParamReader where
  ret : Int8
  c : UInt8
  decode : Mem
  reader : Reader
  request : Request

def ParamView.loop (v : ParamView) (name value : Mem) (b : ParamReader) : UrlParamLoop where
  ret := b.ret
  c := b.c
  decode := b.decode
  count := v.name.length
  name := name.put v.name
  nameAt := v.name.length
  nameLen := v.nameLen
  value := value.put v.value
  valueAt := v.value.length
  valueLen := v.valueLen
  reader := b.reader
  request := b.request

theorem storeParamChar_loop (v : ParamView) (name value : Mem) (b : ParamReader) :
    storeParamChar (v.loop name value b) = (v.store b.c).loop name value b := by
  unfold storeParamChar ParamView.store
  by_cases named : 0 < v.nameLen
  · rw [if_pos named, if_pos (show 0 < (v.loop name value b).nameLen from named)]
    simp [ParamView.loop, Mem.put_set]
  · rw [if_neg named, if_neg (show ¬ 0 < (v.loop name value b).nameLen from named)]
    simp [ParamView.loop, Mem.put_set]

theorem take_loop (v : ParamView) (name value : Mem) {b : ParamReader} {token : ParamToken}
    (char : ∀ c, token = .char c → b.c = c) :
    (v.loop name value b).take token = ((v.take token).1.loop name value b, (v.take token).2) := by
  cases token with
  | stop => rfl
  | divide => rfl
  | separate =>
      have first : (decide (v.name.length = 0)) = decide (v.name = []) := by simp
      rw [UrlParamLoop.take, ParamView.take, ← first]
      rfl
  | char c =>
      rw [UrlParamLoop.take, storeParamChar_loop, char c rfl]
      rfl

variable {cfg : Config} {holds : List UInt8 → Reader → Request → Prop}
  {past : Reader → Request → Prop}

def Tokens (cfg : Config) (b : ParamReader) (token : ParamToken) (b' : ParamReader) : Prop :=
  (∀ (v : ParamView) (name value : Mem),
    (paramToken cfg (v.loop name value b)).Returns (token, v.loop name value b')) ∧
  ∀ c, token = .char c → b'.c = c

theorem classify_char {u : UrlParamLoop} (read : 0 < u.ret ∧ u.c ≠ 0) (plain : u.c ≠ 37) :
    (classify cfg u).Returns (charToken u.c, u) := by
  rw [classify, if_pos read, charToken]
  by_cases divide : u.c = 61
  · rw [if_pos divide, if_pos divide]
    exact returns_pure.mpr rfl
  · rw [if_neg divide, if_neg divide]
    by_cases separate : u.c = 38 ∨ isSpace u.c
    · rw [if_pos separate, if_pos separate]
      exact returns_pure.mpr rfl
    · rw [if_neg separate, if_neg separate, if_neg plain]
      exact returns_pure.mpr rfl

theorem classify_stop {u : UrlParamLoop} (past : ¬ (0 < u.ret ∧ u.c ≠ 0)) :
    (classify cfg u).Returns (.stop, u) := by
  rw [classify, if_neg past]
  exact returns_pure.mpr rfl

theorem classify_escape {u u' : UrlParamLoop} (read : 0 < u.ret) (percent : u.c = 37)
    (decoded : (decodeEscape cfg u).Returns u') :
    (classify cfg u).Returns (.char u'.c, u') := by
  have nonzero : u.c ≠ 0 := by
    rw [percent]
    decide
  have other : ¬ (u.c = 38 ∨ isSpace u.c) := by
    rw [percent]
    decide
  rw [classify, if_pos ⟨read, nonzero⟩, if_neg (show u.c ≠ 61 by rw [percent]; decide),
    if_neg other, if_pos percent]
  exact decoded.bind (returns_pure.mpr rfl)

def ParamReader.got (b : ParamReader) (g : ParamGot) : ParamReader :=
  { b with ret := g.ret.toInt8, c := g.c, reader := g.reader, request := g.request }

def escapeCells (decode : Mem) (x y : ParamGot) : Mem := ((decode.set 0 x.c).set 1 y.c).set 2 0

def escapeChar (decode : Mem) (x y : ParamGot) : UInt8 :=
  UInt8.ofInt (strtol16 ((escapeCells decode x y).cstr 3))

theorem tokens_stop {b : ParamReader} {g : ParamGot}
    (char : (parseURLParamChar cfg b.c b.reader b.request).Returns g)
    (past : ¬ (0 < g.ret.toInt8 ∧ g.c ≠ 0)) : Tokens cfg b .stop (b.got g) := by
  refine ⟨fun v name value => ?_, fun c same => ParamToken.noConfusion same⟩
  exact char.bind (classify_stop (u := v.loop name value (b.got g)) past)

theorem tokens_char {b : ParamReader} {g : ParamGot}
    (char : (parseURLParamChar cfg b.c b.reader b.request).Returns g)
    (read : 0 < g.ret.toInt8 ∧ g.c ≠ 0) (plain : g.c ≠ 37) :
    Tokens cfg b (charToken g.c) (b.got g) := by
  refine ⟨fun v name value => ?_, fun c same => ?_⟩
  · exact char.bind (classify_char (u := v.loop name value (b.got g)) read plain)
  · unfold charToken at same
    split at same
    · cases same
    · split at same
      · cases same
      · exact ParamToken.char.inj same

theorem tokens_escape {b : ParamReader} {g x y : ParamGot}
    (char : (parseURLParamChar cfg b.c b.reader b.request).Returns g)
    (read : 0 < g.ret.toInt8) (percent : g.c = 37)
    (first : (parseURLParamChar cfg (b.decode 0) g.reader g.request).Returns x)
    (second : (parseURLParamChar cfg (b.decode 1) x.reader x.request).Returns y) :
    Tokens cfg b (.char (escapeChar b.decode x y))
      ⟨g.ret.toInt8, escapeChar b.decode x y, escapeCells b.decode x y, y.reader, y.request⟩ := by
  refine ⟨fun v name value => ?_, fun c same => ParamToken.char.inj same⟩
  have decoded : (decodeEscape cfg (v.loop name value (b.got g))).Returns (v.loop name value
      ⟨g.ret.toInt8, escapeChar b.decode x y, escapeCells b.decode x y, y.reader, y.request⟩) :=
    first.bind (second.bind (returns_pure.mpr rfl))
  exact char.bind (classify_escape read percent decoded)

theorem token_char (source : CharSource cfg holds past) {b : ParamReader} {c : UInt8}
    {text : List UInt8} (left : holds (c :: text) b.reader b.request) (nonzero : c ≠ 0)
    (plain : c ≠ 37) : ∃ b', Tokens cfg b (charToken c) b' ∧ holds text b'.reader b'.request := by
  obtain ⟨r, q, rest, read⟩ := source.char nonzero left
  have one : 0 < (1 : UInt8).toInt8 := by decide
  exact ⟨_, tokens_char (read b.c) ⟨one, nonzero⟩ plain, rest⟩

theorem token_escape (source : CharSource cfg holds past) {b : ParamReader} {c d : UInt8}
    {text : List UInt8} (left : holds (37 :: c :: d :: text) b.reader b.request) (first : c ≠ 0)
    (second : d ≠ 0) :
    ∃ b', Tokens cfg b (.char (escaped c d)) b' ∧ holds text b'.reader b'.request := by
  obtain ⟨r₀, q₀, rest₀, read₀⟩ := source.char (show (37 : UInt8) ≠ 0 by decide) left
  obtain ⟨r₁, q₁, rest₁, read₁⟩ := source.char first rest₀
  obtain ⟨r₂, q₂, rest₂, read₂⟩ := source.char second rest₁
  have one : 0 < (1 : UInt8).toInt8 := by decide
  have cells : (((b.decode.set 0 c).set 1 d).set 2 0).cstr 3 = [c, d] := by
    simp [Mem.cstr, Mem.set, Mem.skip, first, second]
  have token := tokens_escape (read₀ b.c) one rfl (read₁ (b.decode 0)) (read₂ (b.decode 1))
  rw [escapeChar, escapeCells, cells] at token
  exact ⟨_, token, rest₂⟩

theorem token_stop (source : CharSource cfg holds past) {b : ParamReader}
    (left : holds [] b.reader b.request) :
    ∃ b', Tokens cfg b .stop b' ∧ past b'.reader b'.request := by
  obtain ⟨g, read, past, after⟩ := source.done left b.c
  exact ⟨_, tokens_stop read past, after⟩

theorem Tokens.body {b b' : ParamReader} {token : ParamToken} (read : Tokens cfg b token b')
    (v : ParamView) (name value : Mem) : (urlParamBody cfg (v.loop name value b)).Returns
      ((v.take token).1.loop name value b', (v.take token).2) := by
  refine urlParamBody_returns.mpr ⟨_, read.1 v name value, ?_⟩
  rw [take_loop v name value read.2]

def Reads (cfg : Config) (holds : List UInt8 → Reader → Request → Prop)
    (past : Reader → Request → Prop) (v : ParamView) (b : ParamReader)
    (result : ParamView × Option (List UInt8)) : Prop :=
  ∃ b', (∀ name value, (doWhileM (urlParamBody cfg) (v.loop name value b)).Returns
      (result.1.loop name value b')) ∧
    (∀ rest, result.2 = some rest → holds rest b'.reader b'.request) ∧
    (result.2 = none → past b'.reader b'.request)

theorem Tokens.again {b b' : ParamReader} {token : ParamToken} (read : Tokens cfg b token b')
    {v : ParamView} (more : (v.take token).2 = true) {result : ParamView × Option (List UInt8)}
    (next : Reads cfg holds past (v.take token).1 b' result) : Reads cfg holds past v b result := by
  obtain ⟨u, run, done⟩ := next
  refine ⟨u, fun name value => ?_, done⟩
  exact doWhileM_returns.mpr ⟨_, read.body v name value, by rw [if_pos more]; exact run name value⟩

theorem Tokens.last {b b' : ParamReader} {token : ParamToken} (read : Tokens cfg b token b')
    {v : ParamView} (stop : ¬ (v.take token).2 = true) {text : List UInt8}
    (left : holds text b'.reader b'.request) :
    Reads cfg holds past v b ((v.take token).1, some text) := by
  refine ⟨b', fun name value => ?_, fun rest same => ?_, fun none => ?_⟩
  · exact doWhileM_returns.mpr ⟨_, read.body v name value, by rw [if_neg stop]⟩
  · rw [← Option.some.inj same]
    exact left
  · cases none

theorem loop_run (source : CharSource cfg holds past) {text : List UInt8}
    (nonzero : ∀ b ∈ text, b ≠ 0) (v : ParamView) (whole : v.cut text = false) {b : ParamReader}
    (left : holds text b.reader b.request) : Reads cfg holds past v b (v.run text) := by
  fun_induction ParamView.run v text generalizing b with
  | case1 v =>
      obtain ⟨b', read, after⟩ := token_stop source left
      refine ⟨b', fun name value => ?_, fun rest same => ?_, fun _ => after⟩
      · exact doWhileM_returns.mpr ⟨_, read.body v name value, rfl⟩
      · cases same
  | case2 v c d text more ih =>
      obtain ⟨b', read, rest⟩ := token_escape source left (nonzero c (by simp)) (nonzero d (by simp))
      have whole' : (v.take (.char (escaped c d))).1.cut text = false := by
        simpa [ParamView.cut, more] using whole
      exact read.again more (ih (fun b member => nonzero b (by simp [member])) whole' rest)
  | case3 v c d text stop =>
      obtain ⟨b', read, rest⟩ := token_escape source left (nonzero c (by simp)) (nonzero d (by simp))
      exact read.last stop rest
  | case4 v text short =>
      match text, short with
      | [], _ => cases whole
      | [_], _ => cases whole
      | c :: d :: rest, short => exact absurd rfl (short c d rest)
  | case5 v c text plain more ih =>
      obtain ⟨b', read, rest⟩ := token_char source left (nonzero c (by simp)) plain
      have whole' : (v.take (charToken c)).1.cut text = false := by
        rw [ParamView.cut.eq_def] at whole
        simpa [plain, more] using whole
      exact read.again more (ih (fun b member => nonzero b (by simp [member])) whole' rest)
  | case6 v c text plain stop =>
      obtain ⟨b', read, rest⟩ := token_char source left (nonzero c (by simp)) plain
      exact read.last stop rest

theorem parseURLParam_run (source : CharSource cfg holds past) {text : List UInt8}
    (nonzero : ∀ b ∈ text, b ≠ 0) {nameLen valueLen : UInt8}
    (whole : ParamView.cut ⟨[], nameLen, [], valueLen⟩ text = false) {r : Reader} {q : Request}
    (left : holds text r q) {v : ParamView} {rest : Option (List UInt8)}
    (run : ParamView.run ⟨[], nameLen, [], valueLen⟩ text = (v, rest)) :
    ∃ r' q', (∀ name value, (parseURLParam cfg name nameLen value valueLen r q).Returns
        ⟨if v.nameLen = 0 then 1 else 0, name.put (v.name ++ [0]), value.put (v.value ++ [0]),
          r', q'⟩) ∧
      (∀ text', rest = some text' → holds text' r' q') ∧ (rest = none → past r' q') := by
  obtain ⟨b, loop, left'⟩ := loop_run source nonzero ⟨[], nameLen, [], valueLen⟩ whole
    (b := ⟨0, r.frame 0, r.frame.skip 1, r.enter, q⟩) (source.enter left)
  rw [run] at loop left'
  refine ⟨b.reader, b.request, fun name value => (loop name value).bind (returns_pure.mpr ?_), left'⟩
  rw [← Mem.put_set, ← Mem.put_set]
  rfl

end AttoHTTP
