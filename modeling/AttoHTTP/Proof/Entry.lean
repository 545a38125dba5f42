import AttoHTTP.Proof.Rendering

namespace AttoHTTP
open Library Comp

/-- The state the search for a page starts in. -/
def State.asked (cfg : Config) (conn : Connection) (s : State) (p : Parsed) : State :=
  State.setReturnCode statusNotFound
    { s.accept cfg conn with reader := p.reader, request := p.request }

def State.called (cfg : Config) (s : State) : State :=
  (s.withPath cfg).mark (.callback (s.callbackArgs cfg))

/-- Serving the connection, the server calls the callback with these arguments in the state `t`. -/
inductive CallsBack (cfg : Config) (conn : Connection) (s : State) :
    Callback → CallbackArgs → State → Prop
  | intro {callback : Callback} {p : Parsed}
      (parse : (parseRequest cfg conn.checkAuth (s.accept cfg conn).reader
        (s.accept cfg conn).request).Returns p)
      (authorized : p.request.authenticated ≠ 0) (unknown : p.request.returnCode = statusUnknown)
      (entry : findPageEntry cfg (s.asked cfg conn p).request s.registry = none)
      (path : isEventsPath cfg (s.asked cfg conn p).request s.registry = false)
      (registered : s.registry.callback = some callback)
      (level : 0 < ((s.asked cfg conn p).path cfg).cmdlvl) :
      CallsBack cfg conn s callback ((s.asked cfg conn p).callbackArgs cfg)
        ((s.asked cfg conn p).called cfg)

variable {cfg : Config} {conn : Connection} {s t : State} {callback : Callback} {args : CallbackArgs}

theorem runCallback_iff (cfg : Config) (callback : Callback) (visit : Nat) (s u : State) :
    (runCallback cfg callback visit (s.callbackArgs cfg) (s.withPath cfg)).Returns u ↔
      ∃ q, ((callback visit (s.callbackArgs cfg)).run (handle cfg) (s.called cfg)).Returns q ∧
        u = (q.2.mark (.returned q.1)).setReturnCode q.1 := by
  rw [runCallback, returns_bind]
  exact exists_congr fun q => and_congr_right fun _ => returns_pure

theorem CallsBack.execute_iff (h : CallsBack cfg conn s callback args t) (u : State) :
    (execute cfg conn s).Returns u ↔
      ∃ q, ((callback conn.visit args).run (handle cfg) t).Returns q ∧
        u = finish cfg (Found.settled ⟨1, (q.2.mark (.returned q.1)).setReturnCode q.1⟩) := by
  cases h with
  | @intro p parse authorized unknown entry path registered level =>
      have same : State.authorized
          { s.accept cfg conn with reader := p.reader, request := p.request } =
          { s.accept cfg conn with reader := p.reader, request := p.request } :=
        if_neg authorized
      rw [execute, parse.bind_iff, returns_bind]
      constructor
      · rintro ⟨v, answer, h⟩
        rw [returns_pure.mp h]
        rw [respond_returns, same, if_pos unknown] at answer
        obtain ⟨f, finds, rfl⟩ := answer
        cases finds with
        | page found _ => exact absurd (found.symm.trans entry) (by simp)
        | unsupported found _ => exact absurd (found.symm.trans entry) (by simp)
        | events _ found => exact absurd (found.symm.trans path) (by simp)
        | nothing _ _ none => exact absurd (none.symm.trans registered) (by simp)
        | noCommand _ _ _ top => exact absurd (show 0 < 0 from top ▸ level) (by simp)
        | called _ _ other _ run =>
            obtain rfl := Option.some.inj (other.symm.trans registered)
            obtain ⟨q, calls, rfl⟩ := (runCallback_iff ..).mp run
            exact ⟨q, calls, rfl⟩
      · rintro ⟨q, calls, rfl⟩
        refine ⟨_, ?_, returns_pure.mpr rfl⟩
        rw [respond_returns, same, if_pos unknown]
        exact ⟨_, .called entry path registered level ((runCallback_iff ..).mpr ⟨q, calls, rfl⟩), rfl⟩

/-! ## What is left of a rendered request -/

theorem cutPath_beyond {levels ctr stop i : Nat} {t : PathLoop} (ends : t.url stop = 0)
    (before : t.pos ≤ stop) (beyond : stop ≤ i) : (cutPath levels ctr t).url i = t.url i := by
  induction ctr generalizing t with
  | zero => rfl
  | succ ctr ih =>
      rw [cutPath]
      by_cases past : t.url t.pos = 0
      · rw [if_pos past]
      · have less : t.pos < stop := by
          rcases before.lt_or_eq with less | same
          · exact less
          · exact absurd ends (same ▸ past)
        rw [if_neg past]
        by_cases slash : t.url t.pos = 47
        · rw [if_pos slash]
          have cut := cutSlash_url levels (ctr + 1) t
          rw [ih, cut.1, Mem.set_of_ne _ _ (by omega)]
          · rw [cut.1, Mem.set_of_ne _ _ (by omega)]
            exact ends
          · rw [cut.2]
            exact less
        · rw [if_neg slash]
          exact ih ends less

theorem lastQuery_none {target : List UInt8} (none : lastQuery target = none) : 63 ∉ target := by
  induction target with
  | nil => simp
  | cons b target ih =>
      rw [lastQuery] at none
      cases rest : lastQuery target with
      | some j => simp [rest] at none
      | none =>
          rw [rest] at none
          dsimp only at none
          split at none
          · cases none
          · rename_i other
            simp [ih rest, Ne.symm other]

theorem lastQuery_split {target : List UInt8} {k : Nat} (found : lastQuery target = some k) :
    ∃ path query, target = path ++ 63 :: query ∧ k = path.length + 1 ∧ 63 ∉ query := by
  induction target generalizing k with
  | nil => cases found
  | cons b target ih =>
      rw [lastQuery] at found
      cases rest : lastQuery target with
      | some j =>
          obtain ⟨path, query, rfl, rfl, last⟩ := ih rest
          rw [rest] at found
          cases found
          exact ⟨b :: path, query, rfl, rfl, last⟩
      | none =>
          rw [rest] at found
          dsimp only at found
          split at found
          · rename_i mark
            cases found
            exact ⟨[], target, by rw [mark]; rfl, rfl, lastQuery_none rest⟩
          · cases found

theorem lastQuery_of_query (path : List UInt8) {query : List UInt8} (last : 63 ∉ query) :
    lastQuery (path ++ 63 :: query) = some (path.length + 1) := by
  have none : lastQuery query = none := by
    cases found : lastQuery query with
    | none => rfl
    | some k =>
        obtain ⟨_, _, rfl, -⟩ := lastQuery_split found
        exact absurd last (by simp)
  induction path with
  | nil => simp [lastQuery, none]
  | cons b path ih => simp [lastQuery, ih]

structure RequestText.Entered (cfg : Config) (text : RequestText) (body : List GetByte)
    (conn : Connection) (s t : State) : Prop where
  pending : t.reader.pending = .byte 10 :: body
  atEnd : t.reader.atEnd = conn.atEnd
  method : t.request.method = text.method
  contenttype : t.request.contenttype =
    (text.headers.foldl (Header.negotiate cfg) ⟨1, .textHtml⟩).contenttype
  urlParams : t.request.urlParams =
    ((lastQuery (text.target.take (cfg.urlBufferSize - 1))).map UrlPtr.url).getD (.null 0)
  urlParamsStart : t.request.urlParamsStart =
    (lastQuery (text.target.take (cfg.urlBufferSize - 1))).getD cfg.urlBufferSize
  cells : ∀ k i, lastQuery (text.target.take (cfg.urlBufferSize - 1)) = some k → k ≤ i →
    t.request.url i =
      s.request.url.put (urlCells (text.target.take (cfg.urlBufferSize - 1)) ++ [0]) i
  paramLog : t.request.paramLog = []
  json : t.json = ⟨0, 0, 0, 0⟩

theorem CallsBack.entered (reachable : Reachable cfg s) (text : RequestText) {body : List GetByte}
    (input : conn.input = sends text.render ++ body) (h : CallsBack cfg conn s callback args t) :
    text.Entered cfg body conn s t := by
  have pending : (s.accept cfg conn).reader.pending = sends text.render ++ body := input
  have last := accept_last reachable conn
  obtain ⟨r', a, run, -, input', left⟩ := parseRequest_credentials conn.checkAuth text
    (q := (s.accept cfg conn).request) pending rfl rfl last
  cases h with
  | @intro p parse authorized unknown entry path registered level =>
      have follows : p.reader.Follows (s.accept cfg conn).reader := parseRequest_follows parse
      rw [parse.unique run] at follows ⊢
      refine ⟨left, follows.atEnd, rfl, rfl, rfl, rfl, ?_, rfl, rfl⟩
      intro k i found beyond
      obtain ⟨path, query, split, rfl, -⟩ := lastQuery_split found
      have inside : path.length < (urlCells (path ++ 63 :: query) ++ [0]).length := by
        simp only [urlCells, List.length_append, List.length_cons, List.length_map]
        omega
      have zero : (s.request.url.put
          (urlCells (text.target.take (cfg.urlBufferSize - 1)) ++ [0])) path.length = 0 := by
        rw [split, Mem.put_of_lt _ inside]
        simp [urlCells]
      exact cutPath_beyond zero (Nat.zero_le path.length) (by omega)

def RequestText.asked (cfg : Config) (text : RequestText) (q : Request) : Request :=
  { text.result cfg q with returnCode := statusNotFound }

theorem callsBack_of_text (auth : cfg.auth = .none) (reachable : Reachable cfg s) (text : RequestText)
    {body : List GetByte} (input : conn.input = sends text.render ++ body)
    (entry : findPageEntry cfg (text.asked cfg (s.accept cfg conn).request) s.registry = none)
    (path : isEventsPath cfg (text.asked cfg (s.accept cfg conn).request) s.registry = false)
    (registered : s.registry.callback = some callback)
    (level : 0 < (cutPath cfg.apiLevels (text.asked cfg (s.accept cfg conn).request).urlLen
      ⟨(text.asked cfg (s.accept cfg conn).request).url, 0, 0, 0, fun _ => none,
        fun _ => none⟩).cmdlvl) :
    ∃ args t, CallsBack cfg conn s callback args t := by
  have pending : (s.accept cfg conn).reader.pending = sends text.render ++ body := input
  have last := accept_last reachable conn
  obtain ⟨r', run, -⟩ := parseRequest_text auth conn.checkAuth text pending rfl rfl last
  have one : (s.accept cfg conn).request.authenticated = 1 := if_pos auth
  refine ⟨_, _, .intro run ?_ rfl entry path registered level⟩
  change (s.accept cfg conn).request.authenticated ≠ 0
  rw [one]
  decide

def restServer : State :=
  State.boot.setUp (.default .none) [.defaultREST (some fun _ _ => .done statusOk)]

def queryRequest : RequestText where
  method := .get
  beforeTarget := [32]
  target := ascii "/lamp?on=%31"
  beforeVersion := [32]
  version := httpVersion10
  afterVersion := []
  headers := []
  method_known := get_known
  beforeTarget_blank := space_blank
  target_plain := by decide
  beforeVersion_blank := space_blank
  version_plain := httpVersion10_plain
  afterVersion_blank := none_blanks

theorem lamp_plain : ascii "/lamp" ≠ [] ∧
    ∀ b ∈ ascii "/lamp", isBlank b = false ∧ b ≠ 0 := by decide

def formRequest : RequestText where
  method := .post
  beforeTarget := [32]
  target := ascii "/lamp"
  beforeVersion := [32]
  version := httpVersion10
  afterVersion := []
  headers :=
    [{ name := ascii "Content-Type", blanks := [32]
       value := ascii "application/x-www-form-urlencoded"
       name_plain := by decide, name_start := fun _ h => by cases h; decide, blanks_blank := space_blanks
       value_plain := by decide, value_start := fun _ h => by cases h; decide }]
  method_known := post_known
  beforeTarget_blank := space_blank
  target_plain := lamp_plain
  beforeVersion_blank := space_blank
  version_plain := httpVersion10_plain
  afterVersion_blank := none_blanks

def htmlRequest : RequestText :=
  { formRequest with
    headers :=
      [{ name := ascii "accept", blanks := [32], value := ascii "Text/HTML"
         name_plain := by decide, name_start := fun _ h => by cases h; decide, blanks_blank := space_blanks
         value_plain := by decide, value_start := fun _ h => by cases h; decide }] }

theorem restServer_calls (text : RequestText) (body : List UInt8)
    (known : text ∈ [queryRequest, formRequest, htmlRequest]) : ∃ callback args t,
      CallsBack (.default .none) (.ofBytes (text.render ++ body)) restServer callback args t := by
  have asked : ∀ q ∈ [queryRequest, formRequest, htmlRequest].map fun text =>
      text.asked (.default .none) (restServer.request.initRun (.default .none)),
      (findPageEntry (.default .none) q restServer.registry).isNone = true ∧
        isEventsPath (.default .none) q restServer.registry = false ∧
        0 < (cutPath 3 q.urlLen ⟨q.url, 0, 0, 0, fun _ => none, fun _ => none⟩).cmdlvl := by
    decide +kernel
  obtain ⟨entry, path, level⟩ := asked _ (List.mem_map_of_mem known)
  exact ⟨_, callsBack_of_text rfl (reachable_setUp _ _) text (List.map_append ..)
    (Option.isNone_iff_eq_none.mp entry) path rfl level⟩

end AttoHTTP
