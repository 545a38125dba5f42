import Mathlib.Data.List.GetD
import AttoHTTP.Proof.FormParams
import AttoHTTP.Proof.QueryArrival

/-!
# Which cells the query reader reads

A run of the callback's calls in a GET reads the query of its own request, and then nothing, as long
as it neither goes on behind the terminator nor comes to an escape cut by it.
-/

namespace AttoHTTP
open Library Comp

variable {cfg : Config} {found : Option Query}

/-! ## The other calls -/

structure Request.SameQuery (q q' : Request) : Prop where
  method : q'.method = q.method
  url : q'.url = q.url
  urlParams : q'.urlParams = q.urlParams
  urlParamsStart : q'.urlParamsStart = q.urlParamsStart
  paramLog : q'.paramLog = q.paramLog

theorem afterLine_sameQuery (sent : Bool) (code : UInt16) (q : Request) :
    q.SameQuery (q.afterLine sent code) := by
  unfold Request.afterLine
  split <;> exact ⟨rfl, rfl, rfl, rfl, rfl⟩

def ApiCall.isParseParam : ApiCall → Bool
  | .parseParam .. => true
  | _ => false

theorem handle_sameQuery {op : ApiCall} {s : State} {p : op.Reply × State}
    (other : op.isParseParam = false) (h : (handle cfg op s).Returns p) :
    s.request.SameQuery p.2.request := by
  have answered {code : UInt16} {t : State} (answered : (s.mark (.call op)).Answered code t) :
      s.request.SameQuery t.request := by
    rw [answered.request]
    exact afterLine_sameQuery ..
  have puts {t : State} (puts : (s.mark (.call op)).Puts t) : s.request.SameQuery t.request := by
    obtain ⟨bytes, emits⟩ := puts
    rw [emits.request]
    exact ⟨rfl, rfl, rfl, rfl, rfl⟩
  rw [handle] at h
  cases op with
  | firstLine code =>
      rw [returns_pure.mp h]
      exact answered (firstLine_answered cfg code _)
  | sendHeaders =>
      rw [returns_pure.mp h]
      exact answered (sendHeaders_answered cfg _)
  | restSendHeaders code type headers =>
      rw [returns_pure.mp h]
      exact answered (restSendHeaders_answered cfg code type headers _)
  | print text =>
      rw [returns_pure.mp h]
      exact puts (State.print_puts _ text)
  | printf expansion =>
      rw [returns_pure.mp h]
      exact puts (State.printf_puts cfg _ expansion)
  | write bytes =>
      rw [returns_pure.mp h]
      exact puts (State.print_puts _ bytes)
  | sendEvent event data =>
      rw [returns_pure.mp h]
      exact puts (sendEvent_emits event data _)
  | parseParam name nameLen value valueLen => cases other
  | getRawParamChar c =>
      have same : p = getRawParamChar c (s.mark (.call (.getRawParamChar c))) := returns_pure.mp h
      rw [same]
      exact ⟨rfl, rfl, rfl, rfl, rfl⟩

/-! ## Runs -/

/-- The places delivered are cells of the query, and hold what was sent, or its terminator. -/
def WithinQuery (found : Option Query) (q : Request) : Prop :=
  ∀ p ∈ q.paramLog, ∃ y ∈ found, ∃ i ≤ y.text.length,
    p = .url (y.start + i) ∧ q.url (y.start + i) = y.text.getD i 0

def QueryEnded (found : Option Query) (q : Request) : Prop :=
  ∀ y ∈ found, .url y.stop ∈ q.paramLog

/-- What a call has to find: the counter at the end of the buffer, or the pointer in the query and
no escape ahead of this call that the terminator cuts. -/
def QueryReady (cfg : Config) (found : Option Query) (nameLen valueLen : UInt8) (q : Request) : Prop :=
  (cfg.urlBufferSize ≤ q.urlParamsStart ∧ nameLen ≠ 0) ∨
    ∃ y ∈ found, q.urlParams = .url q.urlParamsStart ∧ q.urlParamsStart ≤ y.stop ∧
      ParamView.cut ⟨[], nameLen, [], valueLen⟩ (y.text.drop (q.urlParamsStart - y.start)) = false

inductive QueryRun (cfg : Config) (found : Option Query) (s : State) : State → Prop
  | nil : QueryRun cfg found s s
  | param {t : State} {name value : Mem} {nameLen valueLen : UInt8}
      {p : (ApiCall.parseParam name nameLen value valueLen).Reply × State}
      (before : QueryRun cfg found s t) (ready : QueryReady cfg found nameLen valueLen t.request)
      (call : (handle cfg (.parseParam name nameLen value valueLen) t).Returns p) :
      QueryRun cfg found s p.2
  | other {t : State} {op : ApiCall} {p : op.Reply × State} (before : QueryRun cfg found s t)
      (other : op.isParseParam = false) (call : (handle cfg op t).Returns p) :
      QueryRun cfg found s p.2

def Query.Stands (y : Query) (url : Mem) : Prop :=
  ∀ i ≤ y.text.length, url (y.start + i) = y.text.getD i 0

inductive QueryState (cfg : Config) (found : Option Query) (r : Reader) (q : Request) : Prop
  | reading {y : Query} {text : List UInt8} (query : y ∈ found)
      (left : QueryHolds cfg y.start y.stop text r q) (part : text <:+ y.text)
      (stands : y.Stands q.url)
  | past (method : q.method = .get) (within : WithinQuery found q)
      (beyond : ∀ y ∈ found, ∀ i ≤ y.stop, q.urlParams ≠ .url i)

theorem readPlaces_within {q : Request} {y : Query} {k : Nat} (query : y ∈ found)
    (log : q.paramLog = readPlaces y.start k) (inside : k ≤ y.stop + 1) (stands : y.Stands q.url) :
    WithinQuery found q := by
  intro p member
  rw [log, readPlaces] at member
  obtain ⟨i, range, rfl⟩ := List.mem_map.mp member
  rw [List.mem_range'_1] at range
  unfold Query.stop at inside
  refine ⟨y, query, i - y.start, by omega, congrArg UrlPtr.url (by omega), stands _ (by omega)⟩

theorem QueryState.within {r : Reader} {q : Request} (h : QueryState cfg found r q) :
    WithinQuery found q := by
  cases h with
  | reading query left part stands =>
      obtain ⟨k, here, size, -⟩ := left.reached
      exact readPlaces_within query here.paramLog (by omega) stands
  | past _ within => exact within

theorem QueryState.same {r r' : Reader} {q q' : Request} (h : QueryState cfg found r q)
    (same : q.SameQuery q') : QueryState cfg found r' q' := by
  cases h with
  | reading query left part stands =>
      obtain ⟨k, here, size, text⟩ := left.reached
      refine .reading query ⟨⟨k, ⟨?_, ?_, ?_, ?_, here.started⟩, size, ?_⟩, ?_, left.inside⟩ part ?_
      · rw [same.method, here.method]
      · rw [same.urlParams, here.urlParams]
      · rw [same.urlParamsStart, here.urlParamsStart]
      · rw [same.paramLog, here.paramLog]
      · rw [same.url]
        exact text
      · rw [same.url]
        exact left.ended
      · rw [same.url]
        exact stands
  | past method within beyond =>
      refine .past (same.method.trans method) ?_ ?_
      · unfold WithinQuery
        rw [same.paramLog, same.url]
        exact within
      · rw [same.urlParams]
        exact beyond

/-! ## A call -/

def Request.idle (q : Request) : Request :=
  { q with urlParamsStart := (q.urlParamsStart + 1) % 2 ^ 16 }

theorem idle_source {q₀ : Request} (get : q₀.method = .get)
    (past : cfg.urlBufferSize ≤ q₀.urlParamsStart) :
    CharSource cfg (fun text _ q => text = [] ∧ q = q₀) (fun _ q => q = q₀.idle) where
  char _ h := by cases h.1
  done := by
    rintro r q ⟨-, rfl⟩ c
    have none : ¬ 0 < (0 : UInt8).toInt8 := by decide
    refine ⟨⟨0, c, r, q.idle⟩, ?_, fun read => none read.1, rfl⟩
    rw [parseURLParamChar, if_pos get]
    dsimp only
    rw [if_neg (by omega)]
    exact returns_pure.mpr rfl
  enter h := h

theorem not_ended {q : Request} {y : Query} {k : Nat} (query : y ∈ found)
    (log : q.paramLog = readPlaces y.start k) (inside : k ≤ y.stop) : ¬ QueryEnded found q := by
  intro ended
  have read := ended y query
  rw [log, readPlaces] at read
  obtain ⟨i, range, same⟩ := List.mem_map.mp read
  rw [List.mem_range'_1] at range
  have place : i = y.stop := UrlPtr.url.inj same
  omega

theorem QueryState.param {s : State} (h : QueryState cfg found s.reader s.request)
    (plain : ∀ y ∈ found, ∀ b ∈ y.text, b ≠ 0) {nameLen valueLen : UInt8}
    (ready : QueryReady cfg found nameLen valueLen s.request) :
    ∃ y s', s.Yields cfg nameLen valueLen y s' ∧ QueryState cfg found s'.reader s'.request ∧
      (QueryEnded found s.request → y.ret = 0) := by
  cases h with
  | @reading y text query left part stands =>
      obtain ⟨k, here, size, -⟩ := left.reached
      have inside := left.inside
      have length := part.length_le
      have drop : y.text.drop (s.request.urlParamsStart - y.start) = text := by
        rw [here.urlParamsStart, List.suffix_iff_eq_drop.mp part]
        congr 1
        unfold Query.stop at size
        omega
      cases ready with
      | inl behind =>
          rw [here.urlParamsStart] at behind
          omega
      | inr ready =>
          obtain ⟨y', query', -, -, whole⟩ := ready
          obtain rfl := Option.mem_unique query query'
          rw [drop] at whole
          rcases run : ParamView.run ⟨[], nameLen, [], valueLen⟩ text with ⟨v, rest⟩
          obtain ⟨s', yields, url, more, past⟩ := parseParam_run
            (query_source cfg y.start y.stop) (fun b member => plain y query b (part.subset member))
            whole (.inl here.method) left run
          have outside := parseParam_sameOutside (yields (fun _ => 0) fun _ => 0)
          have same : s'.request.url = s.request.url :=
            url_of_lasting (lasting_of_parsedPart outside.request)
          rw [← same] at stands
          refine ⟨_, s', yields, ?_, fun ended => ?_⟩
          · cases rest with
            | none =>
                have past := past rfl
                refine .past past.method (readPlaces_within query past.paramLog le_rfl stands) ?_
                intro y' query' i le equal
                obtain rfl := Option.mem_unique query query'
                rw [past.urlParams] at equal
                have place : y.stop + 1 = i := UrlPtr.url.inj equal
                omega
            | some rest =>
                have suffix : rest <:+ text :=
                  ParamView.run_suffix (v := ⟨[], nameLen, [], valueLen⟩) (by rw [run])
                exact .reading query (more rest rfl) (suffix.trans part) stands
          · exact absurd ended (not_ended query here.paramLog (by omega))
  | past method within beyond =>
      cases ready with
      | inr inside =>
          obtain ⟨y, query, place, le, -⟩ := inside
          exact absurd place (beyond y query _ le)
      | inl behind =>
          obtain ⟨s', yields, -, -, after⟩ := parseParam_run (idle_source method behind.1)
            (show ∀ b ∈ ([] : List UInt8), b ≠ 0 by simp) rfl (.inl method) ⟨rfl, rfl⟩ rfl
          refine ⟨_, s', yields, ?_, fun _ => if_neg behind.2⟩
          rw [after rfl]
          exact .past method within beyond

theorem QueryState.handle {s : State} (h : QueryState cfg found s.reader s.request)
    (plain : ∀ y ∈ found, ∀ b ∈ y.text, b ≠ 0) {name value : Mem} {nameLen valueLen : UInt8}
    (ready : QueryReady cfg found nameLen valueLen s.request)
    {p : (ApiCall.parseParam name nameLen value valueLen).Reply × State}
    (call : (handle cfg (.parseParam name nameLen value valueLen) s).Returns p) :
    QueryState cfg found p.2.reader p.2.request ∧ (QueryEnded found s.request → p.1.1 = 0) := by
  obtain ⟨q, param, call⟩ := returns_bind.mp call
  obtain ⟨y, s', yields, next, ret⟩ := QueryState.param
    (s := s.mark (.call (.parseParam name nameLen value valueLen))) h plain ready
  rw [returns_pure.mp call, param.unique (yields name value)]
  exact ⟨next, ret⟩

theorem queryRun_state {s t : State} (start : QueryState cfg found s.reader s.request)
    (plain : ∀ y ∈ found, ∀ b ∈ y.text, b ≠ 0) (run : QueryRun cfg found s t) :
    QueryState cfg found t.reader t.request := by
  induction run with
  | nil => exact start
  | param before ready call ih => exact (ih.handle plain ready call).1
  | other before other call ih => exact ih.same (handle_sameQuery other call)

/-! ## The start -/

theorem Request.HasQuery.congr {q q' : Request} (h : q.HasQuery cfg found) (url : q'.url = q.url)
    (params : q'.urlParams = q.urlParams) (start : q'.urlParamsStart = q.urlParamsStart) :
    q'.HasQuery cfg found := by
  cases h with
  | query params' start' path cells ended inside plain =>
      exact .query (params.trans params') (start.trans start') (url ▸ path) (url ▸ cells)
        (url ▸ ended) inside plain
  | nothing params' start' => exact .nothing (params.trans params') (start.trans start')

def Request.Unread (cfg : Config) (found : Option Query) (q : Request) : Prop :=
  q.HasQuery cfg found ∧ q.paramLog = []

theorem unread_keeps (check : CheckAuth) :
    TailInvariant cfg check (Request.Unread cfg found) where
  version _ _ h := ⟨h.1.congr rfl rfl rfl, h.2⟩
  done _ h := ⟨h.1.congr rfl rfl rfl, h.2⟩
  header q name value h := by
    obtain ⟨n, a, same, -⟩ := recordHeader_sets cfg check name value q
    rw [same]
    exact ⟨h.1.congr rfl rfl rfl, h.2⟩

theorem parseMethod_request {r : Reader} {q : Request} {p : Parsed} (h : (parseMethod r q).Returns p)
    (unknown : p.request.returnCode = statusUnknown) : ∃ m, p.request = { q with method := m } := by
  obtain ⟨t, -, h⟩ := returns_bind.mp h
  split at h
  · obtain ⟨f, -, h⟩ := returns_bind.mp h
    dsimp only at h
    split at h
    · exact ⟨_, congrArg Parsed.request (returns_pure.mp h)⟩
    · rw [returns_pure.mp h] at unknown
      exact absurd unknown (show ¬ statusUnsupported = statusUnknown by decide)
  · rw [returns_pure.mp h] at unknown
    exact absurd unknown (show ¬ statusInternalError = statusUnknown by decide)

theorem parseRequest_unread {s : State} {conn : Connection} {p : Parsed} (reachable : Reachable cfg s)
    (brings : conn.Brings cfg s found)
    (h : (parseRequest cfg conn.checkAuth (s.accept cfg conn).reader
      (s.accept cfg conn).request).Returns p) (unknown : p.request.returnCode = statusUnknown) :
    p.request.Unread cfg found := by
  obtain ⟨v, line, h⟩ := returns_bind.mp h
  obtain ⟨m, method, line⟩ := returns_bind.mp line
  by_cases code : m.request.returnCode = statusUnknown
  · rw [if_pos code] at line
    obtain ⟨u, url, version⟩ := returns_bind.mp line
    obtain ⟨named, request⟩ := parseMethod_request method code
    rw [request] at url
    have unblank : Unblank cfg s.request.url := reachable_unblank reachable
    have unmarked : Unmarked cfg s.request.url := reachable_unmarked reachable
    have query : u.request.HasQuery cfg found :=
      @parseURL_query cfg m.reader { (s.accept cfg conn).request with method := named } u found
        (fun t space => brings m t method space) unblank unmarked rfl rfl url
    obtain ⟨_, _, _, _, others⟩ := parseURL_sameButUrl url
    have unread : u.request.Unread cfg found := ⟨query, by rw [others]; rfl⟩
    have keeps := @unread_keeps cfg found conn.checkAuth
    have first := keeps.parseVersion version unread
    split at h
    · exact keeps.parseHeaders h first
    · rw [returns_pure.mp h]
      exact first
  · rw [if_neg code] at line
    rw [returns_pure.mp line, if_neg code] at h
    rw [returns_pure.mp h] at unknown
    exact absurd unknown code

theorem Request.Unread.called {s : State} (h : s.request.Unread cfg found)
    (get : s.request.method = .get) :
    QueryState cfg found (s.called cfg).reader (s.called cfg).request ∧
      ∀ y ∈ found, ∀ b ∈ y.text, b ≠ 0 := by
  obtain ⟨query, log⟩ := h
  cases query with
  | nothing params start =>
      refine ⟨.past get ?_ (fun y none => absurd none (by simp)), fun y none => absurd none (by simp)⟩
      intro p member
      rw [show (s.called cfg).request.paramLog = [] from log] at member
      cases member
  | @query y params start path cells ended inside plain =>
      obtain ⟨k, origin, zero⟩ := path
      have beyond {i : Nat} (le : y.start ≤ i) : (s.called cfg).request.url i = s.request.url i :=
        cutPath_beyond zero (Nat.zero_le k) (by omega)
      have places : (s.called cfg).request.paramLog = readPlaces y.start y.start := by
        rw [readPlaces, Nat.sub_self]
        exact log
      refine ⟨.reading rfl ⟨⟨y.start, ⟨get, params, start, places, le_rfl⟩, rfl, ?_⟩, ?_, inside⟩
        List.suffix_rfl ?_, ?_⟩
      · intro i h
        rw [beyond (by omega)]
        exact cells i h
      · exact (beyond (Nat.le_add_right y.start y.text.length)).trans ended
      · intro i le
        rw [beyond (by omega)]
        rcases le.lt_or_eq with less | rfl
        · rw [cells i less, List.getD_eq_getElem _ _ less]
        · rw [List.getD_eq_default _ _ le_rfl]
          exact ended
      · intro y' same
        rw [← Option.some.inj same]
        exact plain

/-- In a GET the callback's calls are given bytes of the request's own query only, and nothing
after its end, in every run whose calls find the reader ready. -/
theorem queryRun_within {s t u : State} {conn : Connection} {callback : Callback}
    {args : CallbackArgs} {found : Option Query} (reachable : Reachable cfg s)
    (brings : conn.Brings cfg s found) (entry : CallsBack cfg conn s callback args t)
    (get : t.request.method = .get) (run : QueryRun cfg found t u) :
    WithinQuery found u.request ∧
      ∀ {name value : Mem} {nameLen valueLen : UInt8}
        {p : (ApiCall.parseParam name nameLen value valueLen).Reply × State},
        QueryEnded found u.request → QueryReady cfg found nameLen valueLen u.request →
        (handle cfg (.parseParam name nameLen value valueLen) u).Returns p → p.1.1 = 0 := by
  have start : QueryState cfg found t.reader t.request ∧ ∀ y ∈ found, ∀ b ∈ y.text, b ≠ 0 := by
    cases entry with
    | @intro p parse authorized unknown entry path registered level =>
        have unread := parseRequest_unread reachable brings parse unknown
        exact @Request.Unread.called cfg found (s.asked cfg conn p)
          ⟨unread.1.congr rfl rfl rfl, unread.2⟩ get
  obtain ⟨start, plain⟩ := start
  have state := queryRun_state start plain run
  refine ⟨state.within, ?_⟩
  intro name value nameLen valueLen p ended ready call
  exact (state.handle plain ready call).2 ended

/-! ## Whole requests -/

theorem read_sent {r : Reader} {text : List UInt8} {rest : List GetByte}
    (pending : r.pending = sends text ++ rest) {i : Nat} (inside : i < text.length) :
    r.read i = .byte text[i] := by
  have size : i < (sends text).length := by simpa [sends] using inside
  rw [Reader.read, pending, List.getD_append _ _ _ _ size, List.getD_eq_getElem _ _ size]
  simp [sends]

theorem read_behind {r : Reader} {text : List UInt8} {e : GetByte} {rest : List GetByte}
    (pending : r.pending = sends text ++ e :: rest) : r.read text.length = e := by
  have size : (sends text).length = text.length := by simp [sends]
  rw [Reader.read, pending, List.getD_append_right _ _ _ _ size.le, size, Nat.sub_self]
  rfl

def keptQuery (cfg : Config) (target : List UInt8) : Option Query :=
  (lastQuery (target.take (cfg.urlBufferSize - 1))).map fun k =>
    ⟨k, (target.take (cfg.urlBufferSize - 1)).drop k⟩

theorem brings_target {r : Reader} {target : List UInt8} {c : UInt8} {rest : List GetByte}
    (pending : r.pending = sends target ++ .byte c :: rest)
    (plain : ∀ b ∈ target, isBlank b = false ∧ b ≠ 0) (blank : isBlank c = true) :
    r.Brings cfg (keptQuery cfg target) := by
  have last : r.read target.length = .byte c := read_behind pending
  have goes {i : Nat} (inside : i < target.length) : (r.read i).goesOn = true := by
    rw [read_sent pending inside, GetByte.goesOn_byte, (plain _ (List.getElem_mem inside)).1]
    rfl
  have kept {i : Nat} (inside : i < (target.take (cfg.urlBufferSize - 1)).length) :
      r.read i = .byte (target.take (cfg.urlBufferSize - 1))[i] := by
    rw [List.getElem_take]
    exact read_sent pending _
  have size : (target.take (cfg.urlBufferSize - 1)).length =
    min (cfg.urlBufferSize - 1) target.length := List.length_take ..
  unfold keptQuery
  cases found : lastQuery (target.take (cfg.urlBufferSize - 1)) with
  | none =>
      refine .nothing fun k room before mark => lastQuery_none found ?_
      rcases Nat.lt_trichotomy k target.length with inside | rfl | outside
      · have here := kept (i := k) (by omega)
        rw [mark] at here
        exact (GetByte.byte.inj here) ▸ List.getElem_mem _
      · rw [last] at mark
        rw [GetByte.byte.inj mark] at blank
        exact absurd blank (by decide)
      · have goes := before _ outside
        rw [last, GetByte.goesOn_byte, blank] at goes
        cases goes
  | some k =>
      obtain ⟨path, query, split, rfl, unmarked⟩ := lastQuery_split found
      have whole : (path ++ 63 :: query).drop (path.length + 1) = query := by simp
      have length : (target.take (cfg.urlBufferSize - 1)).length = path.length + 1 + query.length := by
        rw [split]
        simp
        omega
      simp only [Option.map_some, split, whole]
      refine .query (fun i less => goes (by omega)) ?_ ?_ ?_ (by omega) fun short => ?_
      · rw [kept (by omega)]
        simp [split]
      · intro i inside
        rw [kept (by omega)]
        simp only [split]
        rw [List.getElem_append_right (by omega)]
        simp [show path.length + 1 + i - path.length = i + 1 by omega]
      · intro b member
        have inTarget : b ∈ target :=
          List.mem_of_mem_take (split ▸ List.mem_append_right _ (List.mem_cons_of_mem _ member))
        exact ⟨(plain b inTarget).1, fun mark => unmarked (mark ▸ member), (plain b inTarget).2⟩
      · rw [show path.length + 1 + query.length = target.length by omega, last]
        exact blank

theorem RequestText.brings (text : RequestText) {conn : Connection} {body : List GetByte}
    (input : conn.input = sends text.render ++ body) (s : State) :
    conn.Brings cfg s (keptQuery cfg text.target) := by
  obtain ⟨b, gap, before⟩ := List.exists_cons_of_ne_nil text.beforeTarget_blank.1
  obtain ⟨c, gap', before'⟩ := List.exists_cons_of_ne_nil text.beforeVersion_blank.1
  have blank := text.beforeTarget_blank.2
  rw [before] at blank
  have blank' : isBlank c = true := text.beforeVersion_blank.2 c (by simp [before'])
  obtain ⟨rest, stream⟩ : ∃ rest, conn.input = sends text.method.name ++
      .byte b :: (sends gap ++ (sends text.target ++ .byte c :: rest)) := by
    rw [input, RequestText.render, before, before']
    simp only [sends_append, sends_cons, List.append_assoc, List.cons_append]
    exact ⟨_, rfl⟩
  intro m t method space
  obtain ⟨r', run, left⟩ := parseMethod_text (r := (s.accept cfg conn).reader)
    (q := (s.accept cfg conn).request) text.method_known stream (blank b (by simp))
  obtain rfl := method.unique run
  obtain ⟨t', space', ret, pending⟩ := parseSpace_token (r := r') left
    (fun b member => blank b (by simp [member])) text.target_plain.1 text.target_plain.2
  obtain rfl := space.unique space'
  rw [ret, if_pos (by decide)]
  exact brings_target pending text.target_plain.2 blank'

theorem queryRun_within_lamp : ∃ callback args t,
    ∃ p : (ApiCall.parseParam (fun _ => 0) 8 (fun _ => 0) 8).Reply × State,
      CallsBack (.default .none) (.ofBytes (queryRequest.render ++ [])) restServer callback args t ∧
      (handle (.default .none) (.parseParam (fun _ => 0) 8 (fun _ => 0) 8) t).Returns p ∧
      WithinQuery (some ⟨6, ascii "on=%31"⟩) p.2.request := by
  obtain ⟨callback, args, t, entry⟩ := restServer_calls queryRequest [] (by simp)
  have reachable : Reachable (.default .none) restServer := reachable_setUp _ _
  have input : (Connection.ofBytes (queryRequest.render ++ [])).input =
      sends queryRequest.render ++ [] := List.map_append ..
  have entered := entry.entered reachable queryRequest input
  have final : t.reader.atEnd.ret ≤ 0 := by
    rw [entered.atEnd]
    decide
  obtain ⟨p, call, -⟩ := handle_total (.default .none)
    (.parseParam (fun _ => 0) 8 (fun _ => 0) 8) t final
  have ready : QueryReady (.default .none) (some ⟨6, ascii "on=%31"⟩) 8 8 t.request := by
    have start : t.request.urlParamsStart = 6 := entered.urlParamsStart
    refine .inr ⟨_, rfl, ?_, ?_, ?_⟩
    · rw [start]
      exact entered.urlParams
    · rw [start]
      decide
    · rw [start]
      decide +kernel
  exact ⟨callback, args, t, p, entry, call,
    (queryRun_within reachable (queryRequest.brings input restServer) entry entered.method
      (.param .nil ready call)).1⟩

def askTwice : Callback := fun _ _ =>
  .call (.parseParam (fun _ => 0) 8 (fun _ => 0) 8) fun _ =>
    .call (.parseParam (fun _ => 0) 8 (fun _ => 0) 8) fun reply =>
      .done (if reply.1 = 0 then statusNotFound else statusOk)

theorem query_revealed : ∃ s t,
    (execute (.default .none) (.ofBytes (ascii "GET /aa?bb&x=1 HTTP/1.0\r\n\r\n"))
      (State.boot.setUp (.default .none) [.defaultREST (some askTwice)])).Returns s ∧
    (execute (.default .none) (.ofBytes (ascii "GET /aa?bb HTTP/1.0\r\n\r\n")) s).Returns t ∧
    ¬ WithinQuery (some ⟨4, ascii "bb"⟩) t.request ∧ t.request.returnCode = statusOk := by
  obtain ⟨t, run, found⟩ := returns_of_run (n := 60)
    (x := execute (.default .none) (.ofBytes (ascii "GET /aa?bb&x=1 HTTP/1.0\r\n\r\n"))
      (State.boot.setUp (.default .none) [.defaultREST (some askTwice)]) >>=
        execute (.default .none) (.ofBytes (ascii "GET /aa?bb HTTP/1.0\r\n\r\n")))
    (f := fun t => (decide (.url 7 ∈ t.request.paramLog), t.request.returnCode))
    (b := (true, statusOk)) (by decide +kernel)
  obtain ⟨read, code⟩ := Prod.mk.inj found
  obtain ⟨s, first, second⟩ := returns_bind.mp run
  refine ⟨s, t, first, second, fun within => ?_, code⟩
  obtain ⟨y, query, i, inside, same, -⟩ := within _ (of_decide_eq_true read)
  cases query
  have place : 7 = 4 + i := UrlPtr.url.inj same
  have short : i ≤ 2 := inside
  omega

end AttoHTTP
