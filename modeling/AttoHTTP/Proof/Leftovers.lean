import AttoHTTP.Proof.ParamTokens

/-!
# What the variables held before

Readers that differ only in what the automatic variables of the coming calls hold deliver the same
bytes. A token of a parameter depends on it only through an escape that does not get its characters.
-/

namespace AttoHTTP
open Library Comp

variable {cfg : Config}

structure Reader.Same (r r' : Reader) : Prop where
  input : r'.input = r.input
  atEnd : r'.atEnd = r.atEnd
  pending : r'.pending = r.pending

theorem Reader.Same.refl (r : Reader) : r.Same r := ⟨rfl, rfl, rfl⟩

theorem Reader.Same.symm {r r' : Reader} (h : r.Same r') : r'.Same r :=
  ⟨h.input.symm, h.atEnd.symm, h.pending.symm⟩

theorem Reader.Same.trans {r₁ r₂ r₃ : Reader} (h : r₁.Same r₂) (h' : r₂.Same r₃) : r₁.Same r₃ :=
  ⟨h'.input.trans h.input, h'.atEnd.trans h.atEnd, h'.pending.trans h.pending⟩

theorem Reader.Same.enter {r r' : Reader} (h : r.Same r') : r.enter.Same r'.enter :=
  ⟨h.input, h.atEnd, h.pending⟩

theorem Reader.Same.next {r r' : Reader} (h : r.Same r') : r'.next = r.next := by
  unfold Reader.next
  rw [h.pending, h.atEnd]

theorem readC_same {r r' : Reader} (h : r.Same r') (c c' : UInt8) :
    (readC c' r').ret = (readC c r).ret ∧ (readC c r).reader.Same (readC c' r').reader ∧
      (0 < (readC c r).ret → (readC c' r').c = (readC c r).c) := by
  refine ⟨?_, ⟨?_, ?_, ?_⟩, ?_⟩
  · rw [readC_ret, readC_ret, h.next]
  · rw [readC_input, readC_input, h.pending]
  · rw [readC_atEnd, readC_atEnd, h.atEnd]
  · rw [readC_pending, readC_pending, h.pending]
  · intro positive
    rw [readC_ret] at positive
    obtain ⟨b, byte⟩ := (ret_pos_iff _).mp positive
    rw [readC_c, readC_c, h.next, byte]
    rfl

theorem pushC_same {r r' : Reader} (h : r.Same r') (c : UInt8) : (pushC c r).Same (pushC c r') := by
  refine ⟨h.input, h.atEnd, ?_⟩
  rw [pushC_pending, pushC_pending, h.input]

/-! ## Characters of parameters -/

structure ParamGot.Same (g g' : ParamGot) : Prop where
  ret : g'.ret = g.ret
  reader : g.reader.Same g'.reader
  request : g'.request = g.request
  c : 0 < g.ret.toInt8 → g'.c = g.c

theorem bodyParam_same {g t : ParamGot} (h : (doWhile bodyParamStep g).Returns t) {g' : ParamGot}
    (reader : g.reader.Same g'.reader) (request : g'.request = g.request) :
    ∃ t', (doWhile bodyParamStep g').Returns t' ∧ t.Same t' ∧ (g'.c = g.c → t'.c = t.c) := by
  have step (g g' : ParamGot) (reader : g.reader.Same g'.reader)
      (request : g'.request = g.request) :
      (bodyParamStep g).1.Same (bodyParamStep g').1 ∧
        (g'.c = g.c → (bodyParamStep g').1.c = (bodyParamStep g).1.c) ∧
        (bodyParamStep g').2 = (bodyParamStep g).2 := by
    obtain ⟨ret, reader', c⟩ := readC_same reader g.c g'.c
    refine ⟨⟨?_, reader', request, fun positive => c (by simpa [bodyParamStep] using positive)⟩,
      fun same => ?_, ?_⟩
    · simp only [bodyParamStep, ret]
    · simp only [bodyParamStep, readC_c, reader.next, same]
    · simp only [bodyParamStep, ret]
      by_cases one : (readC g.c g.reader).ret.toUInt8 = 1
      · have positive : 0 < (readC g.c g.reader).ret := by
          rw [← Int8.toInt8_toUInt8 (readC g.c g.reader).ret, one]
          decide
        rw [c positive]
      · have other : ((readC g.c g.reader).ret.toUInt8 == 1) = false := by simpa using one
        rw [other]
        rfl
  refine doWhile_induction (motive := fun g t => ∀ g', g.reader.Same g'.reader →
    g'.request = g.request → ∃ t', (doWhile bodyParamStep g').Returns t' ∧ t.Same t' ∧
      (g'.c = g.c → t'.c = t.c)) ?_ ?_ h g' reader request
  · intro g stop g' reader request
    obtain ⟨same, equal, flag⟩ := step g g' reader request
    exact ⟨_, (doWhile_exit (flag.trans stop)).mpr rfl, same, equal⟩
  · intro g t again ih g' reader request
    obtain ⟨same, equal, flag⟩ := step g g' reader request
    obtain ⟨t', run, last, equal'⟩ := ih _ same.reader same.request
    exact ⟨t', (doWhile_next (flag.trans again)).mpr run, last, fun start => equal' (equal start)⟩

theorem parseURLParamChar_same {c : UInt8} {r : Reader} {q : Request} {g : ParamGot}
    (h : (parseURLParamChar cfg c r q).Returns g) (c' : UInt8) {r' : Reader} (same : r.Same r') :
    ∃ g', (parseURLParamChar cfg c' r' q).Returns g' ∧ g.Same g' ∧ (c' = c → g'.c = g.c) := by
  unfold parseURLParamChar at h ⊢
  by_cases get : q.method = .get
  · rw [if_pos get] at h ⊢
    dsimp only at h ⊢
    by_cases inside : q.urlParamsStart < cfg.urlBufferSize
    · rw [if_pos inside] at h ⊢
      refine ⟨_, returns_pure.mpr rfl, ?_⟩
      rw [returns_pure.mp h]
      exact ⟨⟨rfl, same, rfl, fun _ => rfl⟩, fun _ => rfl⟩
    · rw [if_neg inside] at h ⊢
      refine ⟨_, returns_pure.mpr rfl, ?_⟩
      rw [returns_pure.mp h]
      have zero : ¬ 0 < (0 : UInt8).toInt8 := by decide
      exact ⟨⟨rfl, same, rfl, fun positive => absurd positive zero⟩, fun equal => equal⟩
  · rw [if_neg get] at h ⊢
    exact bodyParam_same h same rfl

/-! ## Tokens -/

inductive ParamKind
  | stop
  | divide
  | separate
  | char

def ParamToken.kind : ParamToken → ParamKind
  | .stop => .stop
  | .divide => .divide
  | .separate => .separate
  | .char _ => .char

structure ParamReader.Same (b b' : ParamReader) : Prop where
  reader : b.reader.Same b'.reader
  request : b'.request = b.request

theorem Tokens.unique {b b₁ b₂ : ParamReader} {token₁ token₂ : ParamToken}
    (h₁ : Tokens cfg b token₁ b₁) (h₂ : Tokens cfg b token₂ b₂) : token₁ = token₂ ∧ b₁ = b₂ := by
  have same := (h₁.1 ⟨[], 0, [], 0⟩ (fun _ => 0) fun _ => 0).unique
    (h₂.1 ⟨[], 0, [], 0⟩ (fun _ => 0) fun _ => 0)
  simp only [Prod.mk.injEq, ParamView.loop, UrlParamLoop.mk.injEq] at same
  obtain ⟨ret, c, decode, reader, request⟩ := b₁
  obtain ⟨ret', c', decode', reader', request'⟩ := b₂
  exact ⟨same.1, by simp_all⟩

inductive TokenRead (cfg : Config) (b : ParamReader) : ParamToken → ParamReader → Prop
  | stop {g : ParamGot} (char : (parseURLParamChar cfg b.c b.reader b.request).Returns g)
      (past : ¬ (0 < g.ret.toInt8 ∧ g.c ≠ 0)) : TokenRead cfg b .stop (b.got g)
  | char {g : ParamGot} (char : (parseURLParamChar cfg b.c b.reader b.request).Returns g)
      (read : 0 < g.ret.toInt8 ∧ g.c ≠ 0) (plain : g.c ≠ 37) :
      TokenRead cfg b (charToken g.c) (b.got g)
  | escape {g x y : ParamGot} (char : (parseURLParamChar cfg b.c b.reader b.request).Returns g)
      (read : 0 < g.ret.toInt8) (percent : g.c = 37)
      (first : (parseURLParamChar cfg (b.decode 0) g.reader g.request).Returns x)
      (second : (parseURLParamChar cfg (b.decode 1) x.reader x.request).Returns y) :
      TokenRead cfg b (.char (escapeChar b.decode x y))
        ⟨g.ret.toInt8, escapeChar b.decode x y, escapeCells b.decode x y, y.reader, y.request⟩

theorem TokenRead.tokens {b b' : ParamReader} {token : ParamToken} (h : TokenRead cfg b token b') :
    Tokens cfg b token b' := by
  cases h with
  | stop char past => exact tokens_stop char past
  | char char read plain => exact tokens_char char read plain
  | escape char read percent first second => exact tokens_escape char read percent first second

theorem classify_decodes {u : UrlParamLoop} {k : ParamToken × UrlParamLoop} (read : 0 < u.ret)
    (percent : u.c = 37) (h : (classify cfg u).Returns k) : ∃ u', (decodeEscape cfg u).Returns u' := by
  have nonzero : u.c ≠ 0 := by
    rw [percent]
    decide
  have divide : u.c ≠ 61 := by
    rw [percent]
    decide
  have separate : ¬ (u.c = 38 ∨ isSpace u.c) := by
    rw [percent]
    decide
  rw [classify, if_pos ⟨read, nonzero⟩, if_neg divide, if_neg separate, if_pos percent] at h
  obtain ⟨u', decoded, -⟩ := returns_bind.mp h
  exact ⟨u', decoded⟩

theorem paramToken_read {v : ParamView} {name value : Mem} {b : ParamReader}
    {k : ParamToken × UrlParamLoop} (h : (paramToken cfg (v.loop name value b)).Returns k) :
    ∃ b', k = (k.1, v.loop name value b') ∧ TokenRead cfg b k.1 b' := by
  have found {token : ParamToken} {b' : ParamReader} (read : TokenRead cfg b token b') :
      ∃ b', k = (k.1, v.loop name value b') ∧ TokenRead cfg b k.1 b' := by
    obtain rfl := h.unique (read.tokens.1 v name value)
    exact ⟨b', rfl, read⟩
  obtain ⟨g, char, rest⟩ := returns_bind.mp h
  by_cases read : 0 < g.ret.toInt8 ∧ g.c ≠ 0
  · by_cases percent : g.c = 37
    · obtain ⟨u, decoded⟩ := classify_decodes (u := (v.loop name value b).got g) read.1 percent rest
      obtain ⟨x, first, decoded⟩ := returns_bind.mp decoded
      obtain ⟨y, second, -⟩ := returns_bind.mp decoded
      exact found (.escape char read.1 percent first second)
    · exact found (.char char read percent)
  · exact found (.stop char read)

theorem Tokens.read {b b' : ParamReader} {token : ParamToken} (h : Tokens cfg b token b') :
    TokenRead cfg b token b' := by
  obtain ⟨u, same, read⟩ := paramToken_read (h.1 ⟨[], 0, [], 0⟩ (fun _ => 0) fun _ => 0)
  obtain ⟨-, rfl⟩ := h.unique read.tokens
  exact read

theorem urlParamBody_loop {v : ParamView} {name value : Mem} {b : ParamReader}
    {p : UrlParamLoop × Bool} (h : (urlParamBody cfg (v.loop name value b)).Returns p) :
    ∃ token b', Tokens cfg b token b' ∧
      p = ((v.take token).1.loop name value b', (v.take token).2) := by
  obtain ⟨k, token, -⟩ := urlParamBody_returns.mp h
  obtain ⟨b', -, read⟩ := paramToken_read token
  exact ⟨k.1, b', read.tokens, h.unique (read.tokens.body v name value)⟩

theorem tokens_total (cfg : Config) (b : ParamReader) (final : b.reader.atEnd.ret ≤ 0) :
    ∃ token b', Tokens cfg b token b' ∧ b'.reader.atEnd.ret ≤ 0 := by
  obtain ⟨g, char, -⟩ := parseURLParamChar_total cfg b.c b.request final
  have final' : g.reader.atEnd.ret ≤ 0 := by rwa [(parseURLParamChar_follows char).1.atEnd]
  by_cases read : 0 < g.ret.toInt8 ∧ g.c ≠ 0
  · by_cases percent : g.c = 37
    · obtain ⟨x, first, -⟩ := parseURLParamChar_total cfg (b.decode 0) g.request final'
      have final₁ : x.reader.atEnd.ret ≤ 0 := by rwa [(parseURLParamChar_follows first).1.atEnd]
      obtain ⟨y, second, -⟩ := parseURLParamChar_total cfg (b.decode 1) x.request final₁
      have final₂ : y.reader.atEnd.ret ≤ 0 := by rwa [(parseURLParamChar_follows second).1.atEnd]
      exact ⟨_, _, tokens_escape char read.1 percent first second, final₂⟩
    · exact ⟨_, _, tokens_char char read percent, final'⟩
  · exact ⟨_, _, tokens_stop char read, final'⟩

/-! ## Two readers -/

def Delivers (cfg : Config) (r : Reader) (q : Request) : Prop :=
  ∀ c c' g g', (parseURLParamChar cfg c r q).Returns g → (parseURLParamChar cfg c' r q).Returns g' →
    g'.c = g.c

/-- An escape that comes next gets its characters, the second only if the first is no NUL. -/
def ParamReader.Fed (cfg : Config) (b : ParamReader) : Prop :=
  ∀ g, (parseURLParamChar cfg b.c b.reader b.request).Returns g → 0 < g.ret.toInt8 → g.c = 37 →
    Delivers cfg g.reader g.request ∧
    ∀ x, (parseURLParamChar cfg (b.decode 0) g.reader g.request).Returns x →
      x.c = 0 ∨ Delivers cfg x.reader x.request

/-- There is a cell of the URL to read, or the next read from the connection stores something. -/
def Supplies (cfg : Config) (r : Reader) (q : Request) : Prop :=
  if q.method = .get then q.urlParamsStart < cfg.urlBufferSize
  else r.next ≠ .timeout ∧ r.next ≠ .error

theorem Supplies.delivers {r : Reader} {q : Request} (supplies : Supplies cfg r q) :
    Delivers cfg r q := by
  intro c c' g g' char char'
  unfold Supplies at supplies
  unfold parseURLParamChar at char char'
  by_cases get : q.method = .get
  · rw [if_pos get] at supplies char char'
    dsimp only at char char'
    rw [if_pos supplies, returns_pure] at char char'
    rw [char, char']
  · rw [if_neg get] at supplies char char'
    -- The loop reads once at least, and that read gives both variables the same.
    have step : bodyParamStep ⟨0, c', r, q⟩ = bodyParamStep ⟨0, c, r, q⟩ := by
      unfold bodyParamStep
      have stored : r.next.store c' = r.next.store c := by
        cases next : r.next with
        | byte b => rfl
        | zero => rfl
        | timeout => exact absurd next supplies.1
        | error => exact absurd next supplies.2
      simp only [readC_ret, readC_c, stored, readC_reader c' c r]
    have same : (doWhile bodyParamStep ⟨0, c, r, q⟩).Returns g' := by
      rw [doWhile, doWhileM_returns] at char' ⊢
      rwa [step] at char'
    rw [char.unique same]

def ParamReader.Supplied (cfg : Config) (b : ParamReader) : Prop :=
  ∀ g, (parseURLParamChar cfg b.c b.reader b.request).Returns g → 0 < g.ret.toInt8 → g.c = 37 →
    Supplies cfg g.reader g.request ∧
    ∀ x, (parseURLParamChar cfg (b.decode 0) g.reader g.request).Returns x →
      x.c = 0 ∨ Supplies cfg x.reader x.request

theorem ParamReader.Supplied.fed {b : ParamReader} (supplied : b.Supplied cfg) : b.Fed cfg := by
  intro g char read percent
  obtain ⟨first, second⟩ := supplied g char read percent
  exact ⟨first.delivers, fun x char => (second x char).imp_right Supplies.delivers⟩

theorem Delivers.same {c c' : UInt8} {r r' : Reader} {q : Request} {g g' : ParamGot}
    (h : Delivers cfg r q) (char : (parseURLParamChar cfg c r q).Returns g)
    (char' : (parseURLParamChar cfg c' r' q).Returns g') (same : r.Same r') : g'.c = g.c := by
  obtain ⟨g₁, char₁, -⟩ := parseURLParamChar_same char c' (.refl r)
  obtain ⟨g₂, char₂, -, equal⟩ := parseURLParamChar_same char₁ c' same
  rw [char'.unique char₂, equal rfl]
  exact h c c' g g₁ char char₁

theorem escapeChar_congr {decode decode' : Mem} {x y x' y' : ParamGot} (first : x'.c = x.c)
    (second : x.c = 0 ∨ y'.c = y.c) : escapeChar decode' x' y' = escapeChar decode x y := by
  have cells : (escapeCells decode' x' y').cstr 3 = (escapeCells decode x y).cstr 3 := by
    rcases second with zero | second
    · simp [escapeCells, Mem.cstr, Mem.set, first, zero]
    · simp [escapeCells, Mem.cstr, Mem.set, Mem.skip, first, second]
  unfold escapeChar
  rw [cells]

theorem Tokens.same {b u : ParamReader} {token : ParamToken} (h : Tokens cfg b token u)
    {b' : ParamReader} (same : b.Same b') :
    ∃ token' u', Tokens cfg b' token' u' ∧ token'.kind = token.kind ∧ u.Same u' ∧
      (b.Fed cfg → token' = token) := by
  cases h.read with
  | @stop g char past =>
      obtain ⟨g', char', alike, -⟩ := parseURLParamChar_same char b'.c same.reader
      rw [← same.request] at char'
      have past' : ¬ (0 < g'.ret.toInt8 ∧ g'.c ≠ 0) := by
        rintro ⟨positive, nonzero⟩
        rw [alike.ret] at positive
        rw [alike.c positive] at nonzero
        exact past ⟨positive, nonzero⟩
      exact ⟨_, _, tokens_stop char' past', rfl, ⟨alike.reader, alike.request⟩, fun _ => rfl⟩
  | @char g char read plain =>
      obtain ⟨g', char', alike, -⟩ := parseURLParamChar_same char b'.c same.reader
      rw [← same.request] at char'
      have equal := alike.c read.1
      have token := tokens_char char' (by rwa [alike.ret, equal]) (by rwa [equal])
      rw [equal] at token
      exact ⟨_, _, token, rfl, ⟨alike.reader, alike.request⟩, fun _ => rfl⟩
  | @escape g x y char read percent first second =>
      obtain ⟨g', char', alike, -⟩ := parseURLParamChar_same char b'.c same.reader
      obtain ⟨x', first', alike₁, -⟩ := parseURLParamChar_same first (b'.decode 0) alike.reader
      obtain ⟨y', second', alike₂, -⟩ := parseURLParamChar_same second (b'.decode 1) alike₁.reader
      rw [← same.request] at char'
      rw [← alike.request] at first'
      rw [← alike₁.request] at second'
      have token := tokens_escape char' (by rwa [alike.ret]) ((alike.c read).trans percent) first'
        second'
      refine ⟨_, _, token, rfl, ⟨alike₂.reader, alike₂.request⟩, fun fed => ?_⟩
      obtain ⟨delivers, again⟩ := fed g char read percent
      rw [alike.request] at first'
      rw [alike₁.request] at second'
      have equal := delivers.same first first' alike.reader
      have equal' := (again x first).imp_right fun delivers =>
        delivers.same second second' alike₁.reader
      rw [escapeChar_congr equal equal']

end AttoHTTP
