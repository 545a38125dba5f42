import Mathlib.Data.List.GetD
import AttoHTTP.Proof.Alike
import AttoHTTP.Proof.CredentialText
import AttoHTTP.Proof.Truncation

/-!
# What uninitialised memory decides

The parsers find the same in a request whatever their buffers and variables held at first, unless
the version fills its buffer or the credentials start where no value has reached.
-/

namespace AttoHTTP
open Library Comp

variable {cfg : Config}

/-! ## Header by header -/

structure Held (n : Nat) (m m' : Mem) : Prop where
  agree : ∀ i, i < n → m i = m' i
  ends : 0 < n → m (n - 1) = 0

theorem Held.nothing (m m' : Mem) : Held 0 m m' :=
  ⟨fun i inside => absurd inside (Nat.not_lt_zero i), fun some => absurd some (lt_irrefl 0)⟩

theorem Held.put {n : Nat} {m m' : Mem} (held : Held n m m') (text : List UInt8) :
    Held (max n (text.length + 1)) (m.put (text ++ [0])) (m'.put (text ++ [0])) := by
  constructor
  · intro i inside
    by_cases stored : i < (text ++ [0]).length
    · rw [Mem.put_of_lt m stored, Mem.put_of_lt m' stored]
    · rw [Mem.put_of_le m (Nat.le_of_not_lt stored), Mem.put_of_le m' (Nat.le_of_not_lt stored)]
      rw [List.length_append, List.length_singleton] at stored
      exact held.agree i (by omega)
  · intro some
    rcases Nat.le_total n (text.length + 1) with less | more
    · rw [Nat.max_eq_right less, Nat.add_sub_cancel, Mem.put_of_lt m (by simp)]
      simp
    · rw [Nat.max_eq_left more]
      rcases more.eq_or_lt with equal | less
      · rw [← equal, Nat.add_sub_cancel, Mem.put_of_lt m (by simp)]
        simp
      · rw [Mem.put_of_le m (by simp; omega)]
        exact held.ends (by omega)

theorem Held.cstr {n : Nat} {m m' : Mem} (held : Held n m m') {start : Nat} (inside : start < n)
    (size : Nat) : (m.skip start).cstr size = (m'.skip start).cstr size := by
  apply Mem.cstr_congr (n - 1 - start)
  · intro i le
    exact held.agree (start + i) (by omega)
  · rw [Mem.skip_apply, Nat.add_sub_of_le (by omega)]
    exact held.ends (by omega)

theorem authorize_congr {check : CheckAuth} {value value' : Mem} (q : Request)
    (same : value.cstr cfg.headerValueSize = value'.cstr cfg.headerValueSize)
    (cred : ∀ k t i, scheme (value.cstr cfg.headerValueSize) = some t →
      strstr (value.cstr cfg.headerValueSize) t.name = some i →
      check k t (value.skip (i + t.name.length + 1)) =
        check k t (value'.skip (i + t.name.length + 1))) :
    authorize cfg check value q = authorize cfg check value' q := by
  unfold authorize
  rw [← same]
  cases found : scheme (value.cstr cfg.headerValueSize) with
  | none =>
      unfold scheme at found
      simp only [found]
  | some t =>
      obtain ⟨i, place⟩ := scheme_place found
      have checked := cred q.authLog.length t i found place
      unfold scheme at found
      simp only [found, place, Option.getD_some, checkAuth, checked]

def Header.NamesScheme (cfg : Config) (h : Header) : Prop :=
  h.IsAuthorization ∧ scheme (h.kept cfg) ≠ none

/-- In builds with authentication, the credentials start in a cell that has been written: behind
the name of the scheme there is more of the value, or a longer value has been there before. -/
def CredentialsHeld (cfg : Config) : Nat → List Header → Prop
  | _, [] => True
  | n, h :: headers =>
      (h.IsAuthorization → ∀ t i, scheme (h.kept cfg) = some t →
        strstr (h.kept cfg) t.name = some i →
        i + t.name.length + 1 < max n ((h.kept cfg).length + 1)) ∧
      CredentialsHeld cfg (max n ((h.kept cfg).length + 1)) headers

theorem recordHeader_held {check : CheckAuth} (h : Header) {n : Nat} {value value' : Mem}
    (held : Held n value value')
    (settled : cfg.auth = .none ∨ (h.NamesScheme cfg → Textual check) ∧
      (h.IsAuthorization → ∀ t i, scheme (h.kept cfg) = some t →
        strstr (h.kept cfg) t.name = some i →
        i + t.name.length + 1 < max n ((h.kept cfg).length + 1)))
    (name name' : Mem) (q : Request) :
    recordHeader cfg check (name'.put (h.name.take (cfg.headerNameSize - 1) ++ [0]))
        (value'.put (h.kept cfg ++ [0])) q =
      recordHeader cfg check (name.put (h.name.take (cfg.headerNameSize - 1) ++ [0]))
        (value.put (h.kept cfg ++ [0])) q := by
  have plain := kept_plain cfg h
  have short := kept_short cfg h
  have told (m : Mem) {known : List UInt8} (nonzero : ∀ b ∈ known, b ≠ 0) (fits : known.length < 14) :=
    @headerName_text cfg h m known nonzero fits
  unfold recordHeader
  rw [told name (by decide) (by decide), told name (by decide) (by decide),
    told name (by decide) (by decide), told name' (by decide) (by decide),
    told name' (by decide) (by decide), told name' (by decide) (by decide),
    acceptRule_text plain short, acceptRule_text plain short, contentTypeRule_text plain short,
    contentTypeRule_text plain short]
  by_cases authorization : equalFold h.name (ascii "authorization") = true
  · rcases settled with none | ⟨textual, started⟩
    · simp only [none, if_true]
    · have text (m : Mem) : (m.put (h.kept cfg ++ [0])).cstr cfg.headerValueSize = h.kept cfg := by
        rw [Mem.cstr_put m plain, List.take_of_length_le short.le]
      have same : authorize cfg check (value'.put (h.kept cfg ++ [0])) q =
          authorize cfg check (value.put (h.kept cfg ++ [0])) q := by
        refine authorize_congr q ((text value').trans (text value).symm) ?_
        rw [text]
        intro k t i found place
        exact textual ⟨authorization, by simp [found]⟩ k t _ _ fun size =>
          ((held.put _).cstr (started authorization t i found place) size).symm
      rw [same]
  · simp only [if_neg authorization]

theorem headersLoop_held (check : CheckAuth) {headers : List Header} {body : List GetByte} {n : Nat}
    {l l' : HeaderLoop} (ahead : l.Ahead headers body) (ahead' : l'.Ahead headers body)
    (request : l'.request = l.request) (held : Held n l.value l'.value)
    (settled : cfg.auth = .none ∨ ((∃ h ∈ headers, h.NamesScheme cfg) → Textual check) ∧
      CredentialsHeld cfg n headers) :
    ∃ k k', (whileDoM moreHeaders (parseHeadersBody cfg check) l).Returns k ∧
      (whileDoM moreHeaders (parseHeadersBody cfg check) l').Returns k' ∧
      k.Ahead [] body ∧ k'.Ahead [] body ∧ k'.request = k.request := by
  induction headers generalizing n l l' with
  | nil =>
      exact ⟨l, l', (whileDoM_stop ahead.stop).mpr rfl, (whileDoM_stop ahead'.stop).mpr rfl, ahead,
        ahead', request⟩
  | cons h headers ih =>
      obtain ⟨m, header, name, value, set, next⟩ := parseHeader_text cfg ahead
      obtain ⟨m', header', name', value', set', next'⟩ := parseHeader_text cfg ahead'
      have recorded := recordHeader_held h held (settled.imp_right fun auth =>
        ⟨fun named => auth.1 ⟨h, List.mem_cons_self, named⟩, auth.2.1⟩) l.name l'.name m.request
      rw [← name, ← name', ← value, ← value'] at recorded
      have same : m'.request = m.request := by rw [set, set', request]
      have held' : Held (max n ((h.kept cfg).length + 1)) m.value m'.value := by
        rw [value, value']
        exact held.put (h.kept cfg)
      obtain ⟨k, k', run, run', last, last', equal⟩ := ih (next.record check) (next'.record check)
        (by dsimp only; rw [same, recorded]) held' (settled.imp_right fun auth =>
          ⟨fun named => auth.1 (named.imp fun _ h => ⟨List.mem_cons_of_mem _ h.1, h.2⟩), auth.2.2⟩)
      exact ⟨k, k', (whileDoM_next ahead.again).mpr ⟨_, header.bind (returns_pure.mpr rfl), run⟩,
        (whileDoM_next ahead'.again).mpr ⟨_, header'.bind (returns_pure.mpr rfl), run'⟩, last, last',
        equal⟩

/-! ## The whole request -/

structure RequestHead where
  method : List UInt8
  beforeTarget : List UInt8
  target : List UInt8
  beforeVersion : List UInt8
  version : List UInt8
  afterVersion : List UInt8
  headers : List Header
  method_plain : method ≠ [] ∧ ∀ b ∈ method, isBlank b = false ∧ b ≠ 0
  beforeTarget_blank : beforeTarget ≠ [] ∧ ∀ b ∈ beforeTarget, isBlank b
  target_plain : target ≠ [] ∧ ∀ b ∈ target, isBlank b = false ∧ b ≠ 0
  beforeVersion_blank : beforeVersion ≠ [] ∧ ∀ b ∈ beforeVersion, isBlank b
  version_plain : version ≠ [] ∧ ∀ b ∈ version, isSpace b = false ∧ b ≠ 0
  afterVersion_blank : ∀ b ∈ afterVersion, isBlank b

def RequestHead.afterMethod (head : RequestHead) : List UInt8 :=
  head.beforeTarget ++ head.target ++ head.beforeVersion ++ head.version ++ head.afterVersion ++
    httpEol ++ renderHeaders head.headers

def RequestHead.render (head : RequestHead) : List UInt8 := head.method ++ head.afterMethod

def RequestHead.Supported (head : RequestHead) : Prop := ∃ m ∈ knownMethods, m.name = head.method

theorem RequestHead.Supported.text {head : RequestHead} (supported : head.Supported)
    (short : head.version.length ≤ 8) :
    ∃ text : RequestText, text.render = head.render ∧ text.headers = head.headers := by
  obtain ⟨m, known, name⟩ := supported
  refine ⟨⟨m, head.beforeTarget, head.target, head.beforeVersion, head.version, head.afterVersion,
    head.headers, known, head.beforeTarget_blank, head.target_plain, head.beforeVersion_blank,
    ⟨head.version_plain.1, short, head.version_plain.2⟩, head.afterVersion_blank⟩, ?_, rfl⟩
  simp [RequestText.render, RequestHead.render, RequestHead.afterMethod, name]

theorem tokenMethod_unknown {token : List UInt8} (plain : ∀ b ∈ token, b ≠ 0)
    (unknown : ∀ m ∈ knownMethods, m.name ≠ token) :
    tokenMethod (token.take (tokenSize - 1)) = none := by
  rw [tokenMethod, List.find?_eq_none]
  intro m known equal
  have whole : (token.take (tokenSize - 1)).takeWhile (fun b => decide (b ≠ 0)) =
      token.take (tokenSize - 1) := by
    apply List.takeWhile_eq_self_iff.mpr
    intro b member
    exact decide_eq_true (plain b (List.mem_of_mem_take member))
  rw [whole, beq_iff_eq] at equal
  have short := (method_name m known).2.1
  rw [equal, List.length_take] at short
  rw [List.take_of_length_le (by omega)] at equal
  exact unknown m known equal

theorem parseMethod_unsupported {r : Reader} {q : Request} {token : List UInt8} {c : UInt8}
    {rest : List GetByte} (plain : token ≠ [] ∧ ∀ b ∈ token, isBlank b = false ∧ b ≠ 0)
    (pending : r.pending = sends token ++ .byte c :: rest) (blank : isBlank c = true)
    (unknown : ∀ m ∈ knownMethods, m.name ≠ token) :
    ∃ r', (parseMethod r q).Returns ⟨1, r', { q with returnCode := statusUnsupported }⟩ ∧
      r'.Left ((sends token ++ .byte c :: rest).drop (min (token.length + 1) (tokenSize - 1))) := by
  obtain ⟨t, space, ret, text⟩ := parseSpace_token (r := r.enter)
    (show r.pending = sends [] ++ _ from pending) none_blanks plain.1 plain.2
  have positive : (0 : Int8) < 1 := by decide
  have go : ∀ b ∈ token, isBlank b = false := fun b member => (plain.2 b member).1
  have none := tokenMethod_unknown (fun b member => (plain.2 b member).2) unknown
  by_cases short : token.length < tokenSize - 1
  · obtain ⟨r', fills, left⟩ := fill_text isBlank (fun ret => 0 < ret) r.frame text go blank
      (decide_eq_true positive) short
    have ended := Mem.put_append_set r.frame token c 0
    rw [List.take_of_length_le short.le] at none
    refine ⟨r', ?_, ?_⟩
    · simp only [parseMethod, space.bind_iff, ret, if_pos positive, fills.bind_iff, ended,
        findMethod_put _ (Nat.lt_of_lt_of_le short (Nat.sub_le ..)), none, returns_pure]
    · have drop : (sends token ++ .byte c :: rest).drop (token.length + 1) = rest := by
        rw [← List.drop_drop, List.drop_left' (by simp [sends])]
        rfl
      rwa [Nat.min_eq_left short, drop]
  · have size : (token.take (tokenSize - 1)).length = tokenSize - 1 :=
      List.length_take_of_le (Nat.le_of_not_lt short)
    have split : sends token ++ .byte c :: rest =
        sends (token.take (tokenSize - 1)) ++
          (sends token ++ .byte c :: rest).drop (tokenSize - 1) := by
      rw [List.drop_append_of_le_length (by simpa [sends] using short), ← List.append_assoc]
      simp [sends]
    rw [split] at text
    obtain ⟨r', fills, left⟩ := fill_full isBlank (fun ret => 0 < ret) r.frame text
      (fun b member => go b (List.mem_of_mem_take member)) (decide_eq_true positive)
      (List.ne_nil_of_length_pos (by rw [size]; decide)) size
    refine ⟨r', ?_, ?_⟩
    · simp only [parseMethod, space.bind_iff, ret, if_pos positive, fills.bind_iff, Mem.put_set,
        findMethod_put _ (show (token.take (tokenSize - 1)).length < tokenSize by rw [size]; decide),
        none, returns_pure]
    · rwa [Nat.min_eq_right (by omega)]

/-- What the server goes by is in cells that the request has written: the version leaves room for
the byte after it, and so do the credentials. -/
structure RequestHead.Settled (cfg : Config) (check : CheckAuth) (head : RequestHead) : Prop where
  version : head.version.length ≤ 8
  credentials : cfg.auth = .none ∨ ((∃ h ∈ head.headers, h.NamesScheme cfg) → Textual check) ∧
    CredentialsHeld cfg 0 head.headers

def ParsesAlike (parse : Reader → Comp Parsed) (r r' : Reader) : Prop :=
  ∃ p u, (parse r).Returns p ∧ (parse r').Returns { p with reader := u } ∧ p.reader.Same u

theorem parseRequest_unsupported {check : CheckAuth} {head : RequestHead} {r r' : Reader} {q : Request}
    {body : List GetByte} (same : r.Same r') (pending : r.pending = sends head.render ++ body)
    (unsupported : ¬ head.Supported) :
    ParsesAlike (fun r => parseRequest cfg check r q) r r' := by
  obtain ⟨b, gap, before⟩ := List.exists_cons_of_ne_nil head.beforeTarget_blank.1
  have blank := head.beforeTarget_blank.2 b (by simp [before])
  obtain ⟨rest, text⟩ : ∃ rest, sends head.render ++ body =
      sends head.method ++ .byte b :: rest := by
    rw [RequestHead.render, RequestHead.afterMethod, before]
    simp only [sends_append, sends_cons, List.append_assoc, List.cons_append]
    exact ⟨_, rfl⟩
  rw [text] at pending
  have unknown : ∀ m ∈ knownMethods, m.name ≠ head.method :=
    fun m known name => unsupported ⟨m, known, name⟩
  have whole {r t : Reader} (method : (parseMethod r q).Returns
      ⟨1, t, { q with returnCode := statusUnsupported }⟩) : (parseRequest cfg check r q).Returns
      ⟨1, t, { q with returnCode := statusUnsupported }⟩ := by
    have stops : ¬ statusUnsupported = statusUnknown := by decide
    have line : (parseRequestLine cfg r q).Returns
        ⟨1, t, { q with returnCode := statusUnsupported }⟩ := by
      refine method.bind ?_
      rw [if_neg stops]
      exact returns_pure.mpr rfl
    refine line.bind ?_
    rw [if_neg stops]
    exact returns_pure.mpr rfl
  obtain ⟨t, method, left⟩ := parseMethod_unsupported (q := q) head.method_plain pending blank unknown
  obtain ⟨t', method', left'⟩ := parseMethod_unsupported (q := q) head.method_plain
    (same.pending.trans pending) blank unknown
  refine ⟨_, t', whole method, whole method', left'.input.trans left.input.symm, ?_,
    left'.pending.trans left.pending.symm⟩
  rw [(parseRequest_follows (whole method')).atEnd, (parseRequest_follows (whole method)).atEnd]
  exact same.atEnd

theorem parseRequest_held (check : CheckAuth) {head : RequestHead} {r r' : Reader} {q : Request}
    {body : List GetByte} (same : r.Same r') (pending : r.pending = sends head.render ++ body)
    (unknown : q.returnCode = statusUnknown) (fresh : q.headersDone = false)
    (last : isBlank (q.url (cfg.urlBufferSize - 1)) = false)
    (settled : head.Supported → head.Settled cfg check) :
    ParsesAlike (fun r => parseRequest cfg check r q) r r' := by
  by_cases supported : head.Supported
  · obtain ⟨text, render, headers⟩ := supported.text (settled supported).version
    have credentials := (settled supported).credentials
    rw [← headers] at credentials
    rw [← render] at pending
    obtain ⟨r₁, line, empty, more⟩ := parseRequestLine_text text pending unknown last
    obtain ⟨r₂, line', empty', more'⟩ :=
      parseRequestLine_text text (same.pending.trans pending) unknown last
    have running := (text.firstLine_returnCode cfg q).trans unknown
    have done := text.firstLine_done cfg fresh
    generalize (if text.headers = [] then { text.lineResult cfg q with headersDone := true }
      else text.lineResult cfg q) = q₁ at line line' running done
    obtain ⟨k, k', loop, loop', final, final', request⟩ := headersLoop_held check
      (show HeaderLoop.Ahead text.headers body ⟨1, r₁.frame, r₁.enter.frame, r₁.enter.enter, q₁⟩ from
        ⟨rfl, done, empty, more⟩)
      (show HeaderLoop.Ahead text.headers body ⟨1, r₂.frame, r₂.enter.frame, r₂.enter.enter, q₁⟩ from
        ⟨rfl, done, empty', more'⟩) rfl (Held.nothing ..) credentials
    have whole {r t : Reader} {k : HeaderLoop} (line : (parseRequestLine cfg r q).Returns ⟨1, t, q₁⟩)
        (loop : (whileDoM moreHeaders (parseHeadersBody cfg check)
          ⟨1, t.frame, t.enter.frame, t.enter.enter, q₁⟩).Returns k) :
        (parseRequest cfg check r q).Returns ⟨k.ret, k.reader, k.request⟩ := by
      refine line.bind ?_
      rw [if_pos running]
      exact loop.bind (returns_pure.mpr rfl)
    have parse := whole line loop
    have parse' := whole line' loop'
    have atEnd : k'.reader.atEnd = k.reader.atEnd := by
      rw [(parseRequest_follows parse').atEnd, (parseRequest_follows parse).atEnd]
      exact same.atEnd
    rw [final'.ret, ← final.ret, request] at parse'
    exact ⟨_, k'.reader, parse, parse', (final'.last rfl).1.trans (final.last rfl).1.symm, atEnd,
      (final'.last rfl).2.trans (final.last rfl).2.symm⟩
  · exact parseRequest_unsupported same pending supported

/-! ## What is seen -/

def Event.callback? : Event → Option CallbackArgs
  | .callback args => some args
  | _ => none

/-- What is seen of a request: the arguments of the callback, the bytes on the wire and the code. -/
structure Observation where
  callbacks : List CallbackArgs
  written : List UInt8
  returnCode : ReturnCode

def State.observed (s : State) : Observation :=
  ⟨s.writer.trace.filterMap Event.callback?, s.written, s.request.returnCode⟩

theorem State.Alike.observed {u v : State} (h : u.Alike v) : v.observed = u.observed := by
  obtain ⟨r, -, rfl⟩ := h
  rfl

/-- The connection, when the parsers find this in their buffers and variables. -/
def Connection.withStack (conn : Connection) (stack : Nat → Mem) : Connection :=
  { conn with readStack := stack }

def Connection.SuppliesCallback (cfg : Config) (conn : Connection) (s : State) : Prop :=
  ∀ stack callback args t, CallsBack cfg (conn.withStack stack) s callback args t →
    (callback conn.visit args).Meets (handle cfg) (ApiCall.Supplied cfg) t

theorem Connection.SuppliesCallback.answer {conn : Connection} {s : State} {stack : Nat → Mem}
    {p : Parsed} (supplies : conn.SuppliesCallback cfg s)
    (parse : (parseRequest cfg conn.checkAuth (s.accept cfg (conn.withStack stack)).reader
      (s.accept cfg (conn.withStack stack)).request).Returns p)
    (unknown : (State.authorized { s.accept cfg (conn.withStack stack) with
      reader := p.reader, request := p.request }).request.returnCode = statusUnknown) :
    SuppliedAnswer cfg conn.visit ((State.authorized { s.accept cfg (conn.withStack stack) with
      reader := p.reader, request := p.request }).setReturnCode statusNotFound) := by
  by_cases refused : p.request.authenticated = 0
  · rw [State.authorized, if_pos refused] at unknown
    exact absurd unknown (show ¬ statusUnauthorized = statusUnknown by decide)
  · rw [State.authorized, if_neg refused] at unknown ⊢
    intro callback entry path registered level
    exact supplies stack callback _ _ (.intro parse refused unknown entry path registered level)

/-- A request is answered alike whatever the parsers find in their buffers and variables, if what
the server goes by is in cells that the request has written. -/
theorem execute_determined {conn : Connection} {s : State} (reachable : Reachable cfg s)
    (head : RequestHead) {body : List GetByte} (input : conn.input = sends head.render ++ body)
    (settled : head.Supported → head.Settled cfg conn.checkAuth)
    (supplies : conn.SuppliesCallback cfg s) (stack stack' : Nat → Mem) {u : State}
    (h : (execute cfg (conn.withStack stack) s).Returns u) :
    ∃ v, (execute cfg (conn.withStack stack') s).Returns v ∧ v.observed = u.observed := by
  obtain ⟨p, r, parse, parse', same⟩ := parseRequest_held conn.checkAuth
    (show (s.accept cfg (conn.withStack stack)).reader.Same
      (s.accept cfg (conn.withStack stack')).reader from ⟨rfl, rfl, rfl⟩)
    (q := (s.accept cfg (conn.withStack stack)).request) input rfl rfl
    (accept_last reachable _) settled
  obtain ⟨p', found, h⟩ := returns_bind.mp h
  obtain rfl := found.unique parse
  obtain ⟨t, answer, h⟩ := returns_bind.mp h
  rw [returns_pure.mp h]
  have alike : State.Alike
      { s.accept cfg (conn.withStack stack) with reader := p'.reader, request := p'.request }
      { s.accept cfg (conn.withStack stack') with reader := r, request := p'.request } :=
    ⟨r, same, rfl⟩
  obtain ⟨t', answer', last⟩ := respond_alike alike (supplies.answer parse) answer
  exact ⟨finish cfg t', parse'.bind (answer'.bind (returns_pure.mpr rfl)),
    (finish_writeOnly.alike last).observed⟩

/-! ## Escapes in the URL -/

/-- The query of a GET request goes on up to this cell, and its escapes have their characters. -/
structure Request.QueryWhole (stop : Nat) (q : Request) : Prop where
  get : q.method = .get
  place : q.urlParams = .url q.urlParamsStart
  before : q.urlParamsStart ≤ stop
  escapes : ∀ i, q.urlParamsStart ≤ i → i < stop → q.url i ≠ 0 ∧ (q.url i = 37 → i + 2 < stop)
  ends : q.url stop = 0

section
variable {stop : Nat}

theorem queryWhole_char (inside : stop < cfg.urlBufferSize) {c : UInt8} {r : Reader} {q : Request}
    {g : ParamGot} (whole : q.QueryWhole stop)
    (char : (parseURLParamChar cfg c r q).Returns g) :
    g.c = q.url q.urlParamsStart ∧ g.request.urlParamsStart = q.urlParamsStart + 1 ∧
      (g.c ≠ 0 → g.request.QueryWhole stop) := by
  have size := cfg.url_lt
  have before := whole.before
  have place : q.urlParams.load q = q.url q.urlParamsStart := by rw [whole.place]; rfl
  unfold parseURLParamChar at char
  rw [if_pos whole.get] at char
  dsimp only at char
  rw [if_pos (by omega), Nat.mod_eq_of_lt (show q.urlParamsStart + 1 < 2 ^ 16 by omega), place] at char
  rw [returns_pure.mp char]
  refine ⟨rfl, rfl, fun nonzero => ?_⟩
  have less : q.urlParamsStart ≠ stop := fun same => nonzero (by
    change q.url q.urlParamsStart = 0
    rw [same, whole.ends])
  refine ⟨whole.get, ?_, by dsimp only; omega, fun i from' below => ?_, whole.ends⟩
  · dsimp only
    rw [whole.place]
    rfl
  · dsimp only at from' ⊢
    exact whole.escapes i (by omega) below

theorem queryWhole_escape (inside : stop < cfg.urlBufferSize) {b : ParamReader} {g x : ParamGot}
    (whole : b.request.QueryWhole stop)
    (char : (parseURLParamChar cfg b.c b.reader b.request).Returns g) (percent : g.c = 37)
    (first : (parseURLParamChar cfg (b.decode 0) g.reader g.request).Returns x) :
    g.request.QueryWhole stop ∧ x.request.QueryWhole stop ∧ x.request.urlParamsStart < stop := by
  obtain ⟨cell, start, next⟩ := queryWhole_char inside whole char
  have whole₁ := next (by rw [percent]; decide)
  have less : b.request.urlParamsStart ≠ stop := by
    intro same
    rw [cell, same, whole.ends] at percent
    cases percent
  have room := (whole.escapes _ le_rfl (by have := whole.before; omega)).2 (cell ▸ percent)
  obtain ⟨cell₁, start₁, next₁⟩ := queryWhole_char inside whole₁ first
  have nonzero : x.c ≠ 0 := by
    rw [cell₁]
    exact (whole₁.escapes _ le_rfl (by omega)).1
  exact ⟨whole₁, next₁ nonzero, by omega⟩

theorem queryWhole_supplied (inside : stop < cfg.urlBufferSize) {b : ParamReader}
    (whole : b.request.QueryWhole stop) : b.Supplied cfg := by
  intro g char read percent
  have supplies {r : Reader} {q : Request} (h : q.QueryWhole stop) : Supplies cfg r q := by
    rw [Supplies, if_pos h.get]
    exact Nat.lt_of_le_of_lt h.before inside
  obtain ⟨-, -, next⟩ := queryWhole_char inside whole char
  refine ⟨supplies (next (by rw [percent]; decide)), fun x first => ?_⟩
  exact .inr (supplies (queryWhole_escape inside whole char percent first).2.1)

theorem queryWhole_tokens (inside : stop < cfg.urlBufferSize) {b b' : ParamReader} {token : ParamToken}
    (whole : b.request.QueryWhole stop) (tokens : Tokens cfg b token b') (more : token ≠ .stop) :
    b'.request.QueryWhole stop := by
  cases tokens.read with
  | stop char past => exact absurd rfl more
  | char char read plain => exact (queryWhole_char inside whole char).2.2 read.2
  | @escape g x y char read percent first second =>
      obtain ⟨-, whole₂, less⟩ := queryWhole_escape inside whole char percent first
      obtain ⟨cell, -, next⟩ := queryWhole_char inside whole₂ second
      apply next
      rw [cell]
      exact (whole₂.escapes _ le_rfl less).1

theorem queryWhole_call (inside : stop < cfg.urlBufferSize) {nameLen valueLen : UInt8} {r : Reader}
    {q : Request} (whole : q.QueryWhole stop) : SuppliedCall cfg nameLen valueLen r q := by
  intro name value v b reach
  suffices found : ∃ v' b', ParamView.loop v name value b = ParamView.loop v' name value b' ∧
      b'.request.QueryWhole stop by
    obtain ⟨v', b', same, whole'⟩ := found
    have request : b.request = b'.request := congrArg UrlParamLoop.request same
    exact queryWhole_supplied inside (request ▸ whole')
  refine reach.invariant (fun u => ∃ v' b', u = ParamView.loop v' name value b' ∧
    b'.request.QueryWhole stop) ?_ ⟨_, _, rfl, whole⟩
  rintro _ p ⟨v', b', rfl, whole'⟩ round again
  obtain ⟨token, b'', tokens, rfl⟩ := urlParamBody_loop round
  refine ⟨_, _, rfl, queryWhole_tokens inside whole' tokens ?_⟩
  rintro rfl
  cases again

end

def readsOne : Callback := fun _ _ =>
  .call (.parseParam (fun _ => 0) 8 (fun _ => 0) 8) fun _ => .done statusOk

def readingServer : State := State.boot.setUp (.default .basic) [.defaultREST (some readsOne)]

def lampText : RequestText := { queryRequest with headers := [authHeader] }

def lampHead : RequestHead where
  method := HttpMethod.get.name
  beforeTarget := [32]
  target := ascii "/lamp?on=%31"
  beforeVersion := [32]
  version := httpVersion10
  afterVersion := []
  headers := [authHeader]
  method_plain := (method_name .get get_known).imp_right And.right
  beforeTarget_blank := space_blank
  target_plain := queryRequest.target_plain
  beforeVersion_blank := space_blank
  version_plain := httpVersion10_plain.imp_right And.right
  afterVersion_blank := none_blanks

def lampConnection : Connection :=
  { Connection.ofBytes lampHead.render with
    checkAuth := fun _ _ cred => if cred.cstr 64 = ascii "bWU6bWU=" then 1 else 0 }

theorem lampConnection_supplies :
    lampConnection.SuppliesCallback (.default .basic) readingServer := by
  intro stack callback args t calls
  have entered := calls.entered (reachable_setUp _ _) lampText
    (show (lampConnection.withStack stack).input = sends lampText.render ++ [] from
      (List.append_nil _).symm)
  obtain rfl : callback = readsOne := by
    cases calls with
    | intro _ _ _ _ _ registered _ => exact (Option.some.inj registered).symm
  have found : lastQuery (lampText.target.take ((Config.default .basic).urlBufferSize - 1)) = some 6 := by
    decide
  have start : t.request.urlParamsStart = 6 := by rw [entered.urlParamsStart, found]; rfl
  have cell (i : Nat) (from' : 6 ≤ i) (below : i < 13) :
      t.request.url i = (urlCells lampText.target ++ [0]).getD i 0 := by
    have inside : i < (urlCells lampText.target ++ [0]).length := below
    rw [entered.cells 6 i found from', List.getD_eq_getElem _ _ inside]
    exact Mem.put_of_lt _ inside
  have whole : t.request.QueryWhole 12 := by
    refine ⟨entered.method, ?_, by rw [start]; decide, fun i from' below => ?_, ?_⟩
    · rw [entered.urlParams, start, found]
      rfl
    · rw [start] at from'
      rw [cell i from' (by omega)]
      have each : ∀ i < 12, 6 ≤ i → (urlCells lampText.target ++ [0]).getD i 0 ≠ 0 ∧
          ((urlCells lampText.target ++ [0]).getD i 0 = 37 → i + 2 < 12) := by decide
      exact each i below from'
    · rw [cell 12 (by decide) (by decide)]
      rfl
  exact ⟨fun _ => queryWhole_call (show 12 < (Config.default .basic).urlBufferSize by decide) whole,
    fun _ _ => trivial⟩

theorem execute_determined_lamp : ∃ u v,
    (execute (.default .basic) (lampConnection.withStack fun _ _ => 0) readingServer).Returns u ∧
    (execute (.default .basic) (lampConnection.withStack fun _ _ => 10) readingServer).Returns v ∧
    u.request.returnCode = statusOk ∧ v.observed = u.observed := by
  obtain ⟨u, run, code⟩ := returns_of_run (n := 100)
    (x := execute (.default .basic) (lampConnection.withStack fun _ _ => 0) readingServer)
    (f := fun u => u.request.returnCode) (b := statusOk) (by decide +kernel)
  have textual : Textual lampConnection.checkAuth := by
    intro k t m m' same
    simp only [lampConnection, same]
  have credentials : CredentialsHeld (.default .basic) 0 lampHead.headers := by
    refine ⟨fun _ t i first place => ?_, trivial⟩
    have known : scheme (authHeader.kept (.default .basic)) = some .basic := by decide +kernel
    obtain rfl := Option.some.inj (known.symm.trans first)
    have front : strstr (authHeader.kept (.default .basic)) AuthType.basic.name = some 0 := by
      decide +kernel
    rw [← Option.some.inj (front.symm.trans place)]
    decide
  obtain ⟨v, run', same⟩ := execute_determined (show Reachable (.default .basic) readingServer from
      reachable_setUp _ _) lampHead (List.append_nil (sends lampHead.render)).symm
    (fun _ => ⟨by decide, .inr ⟨fun _ => textual, credentials⟩⟩) lampConnection_supplies
    (fun _ _ => 0) (fun _ _ => 10) run
  exact ⟨u, v, run, run', code, same⟩

theorem header_lost : ∃ u v,
    (execute (.default .none) ((Connection.ofBytes
      (ascii "GET /a HTTP/1.1xx\r\nAccept: text/plain\r\n\r\n")).withStack fun _ _ => 0)
      restServer).Returns u ∧
    (execute (.default .none) ((Connection.ofBytes
      (ascii "GET /a HTTP/1.1xx\r\nAccept: text/plain\r\n\r\n")).withStack fun _ _ => 10)
      restServer).Returns v ∧
    u.observed.callbacks.map CallbackArgs.accepted ≠ v.observed.callbacks.map CallbackArgs.accepted := by
  have told (b : UInt8) (accepted : List UInt16) (run : ((execute (.default .none)
      ((Connection.ofBytes (ascii "GET /a HTTP/1.1xx\r\nAccept: text/plain\r\n\r\n")).withStack
        fun _ _ => b) restServer).run 100).map
      (fun u => u.observed.callbacks.map CallbackArgs.accepted) = some accepted) := returns_of_run run
  obtain ⟨u, first, asked⟩ := told 0 [1 <<< UInt16.ofNat MimeType.textPlain.index]
    (by decide +kernel)
  obtain ⟨v, second, lost⟩ := told 10 [UInt16.ofNat MimeType.textHtml.index]
    (by decide +kernel)
  refine ⟨u, v, first, second, ?_⟩
  rw [asked, lost]
  decide

end AttoHTTP
