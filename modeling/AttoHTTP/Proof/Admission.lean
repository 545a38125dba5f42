import AttoHTTP.Proof.SentOffers
import AttoHTTP.Proof.Serving

/-!
# Getting past the gate

With authorization a request is admitted exactly when it carries Authorization headers and the checker
accepts each of them. What an admitted request is answered depends on its target alone.
-/

namespace AttoHTTP
open Library Comp

/-! ## The target -/

/-- What decides where a request is routed. -/
structure Wanted where
  method : HttpMethod
  url : Mem
  urlLen : Nat

def Request.wanted (q : Request) : Wanted := ⟨q.method, q.url, q.urlLen⟩

theorem wanted_keeps (cfg : Config) (check : CheckAuth) (w : Wanted) :
    TailInvariant cfg check fun q => q.wanted = w where
  version _ _ same := same
  done _ same := same
  header q name value same := by
    obtain ⟨n, a, sets, -⟩ := recordHeader_sets cfg check name value q
    rw [sets]
    exact same

theorem credentials_keeps {cfg : Config} (auth : cfg.auth = .none) (check : CheckAuth)
    (a : Credentials) : TailInvariant cfg check fun q => q.credentials = a where
  version _ _ same := same
  done _ same := same
  header q name value same := by
    obtain ⟨n, a, sets, kept⟩ := recordHeader_sets cfg check name value q
    rw [sets, kept auth]
    exact same

theorem endsLine_keeps (inv : Request → Prop) {next : Option (List UInt8)} {q : Request} {p : Parsed}
    (done : inv q → inv { q with headersDone := true }) (h : EndsLine next q p) (start : inv q) :
    inv p.request := by
  cases h with
  | more _ request _ => exact request ▸ start
  | finished request => exact request ▸ done start
  | ended _ request _ => exact request ▸ start

theorem parseRequest_wanted {cfg : Config} {check : CheckAuth} {r : Reader} {q : Request}
    {text : List UInt8} (sent : r.Sent text) (unknown : q.returnCode = statusUnknown)
    (last : isBlank (q.url (cfg.urlBufferSize - 1)) = false) {m : HttpMethod} {rest : List UInt8}
    (token : requestMethod text = some (m, rest)) {p : Parsed}
    (h : (parseRequest cfg check r q).Returns p) : ∃ q', q.Lined cfg m rest q' ∧
      p.request.wanted = q'.wanted ∧ (cfg.auth = .none →
        p.request.returnCode = statusUnknown ∧ p.request.authenticated = q.authenticated) := by
  obtain ⟨v, line, h⟩ := returns_bind.mp h
  obtain ⟨q', k, ends, lined⟩ := parseRequestLine_sent sent unknown last token line
  have code : q'.returnCode = statusUnknown := lined.returnCode.trans unknown
  rw [if_pos ((endsLine_code ends).trans code)] at h
  refine ⟨q', lined, ?_, fun auth => ?_⟩
  · have keeps := wanted_keeps cfg check q'.wanted
    exact keeps.parseHeaders h (endsLine_keeps (fun q => q.wanted = q'.wanted) (keeps.done q') ends rfl)
  · have keeps := credentials_keeps auth check q'.credentials
    have same := keeps.parseHeaders h
      (endsLine_keeps (fun q => q.credentials = q'.credentials) (keeps.done q') ends rfl)
    exact ⟨(congrArg Credentials.returnCode same).trans code,
      (congrArg Credentials.authenticated same).trans lined.authenticated⟩

theorem parseRequest_refused {cfg : Config} {check : CheckAuth} {r : Reader} {q : Request}
    {text : List UInt8} (sent : r.Sent text) (token : requestMethod text = none) {p : Parsed}
    (h : (parseRequest cfg check r q).Returns p) :
    p.request = { q with returnCode := methodRefusal text } := by
  obtain ⟨v, line, h⟩ := returns_bind.mp h
  have refused := parseRequestLine_refused sent token line
  rw [refused, if_neg (by exact methodRefusal_known text)] at h
  rw [returns_pure.mp h, refused]

/-! ## The verdicts -/

def Admitted (log : List Verdict) : Prop := log ≠ [] ∧ ∀ verdict ∈ log, Accepted verdict

structure Request.Judged (q : Request) : Prop where
  fresh : q.authLog = [] → q.authenticated = 0
  accepted : (∀ verdict ∈ q.authLog, Accepted verdict) → q.returnCode = statusUnknown ∧
    (q.authLog ≠ [] → q.authenticated ≠ 0)
  refused : ¬ (∀ verdict ∈ q.authLog, Accepted verdict) → q.returnCode = statusUnauthorized

theorem authorize_judged {cfg : Config} (auth : cfg.auth ≠ .none) (check : CheckAuth) (value : Mem)
    {q : Request} (judged : q.Judged) : (authorize cfg check value q).Judged := by
  cases call : schemeCall cfg value with
  | none =>
      rw [authorize_none call]
      refine ⟨fun empty => absurd empty (by simp), fun all => ?_, fun _ => rfl⟩
      obtain ⟨ret, told, -⟩ := all none (by simp)
      cases told
  | some c =>
      rw [authorize_call call, checkAuth_eq auth]
      dsimp only
      generalize check q.authLog.length c.type c.cred = ret
      by_cases refused : ret = 0 ∧ q.returnCode = statusUnknown
      · rw [if_pos refused]
        refine ⟨fun empty => absurd empty (by simp), fun all => ?_, fun _ => rfl⟩
        obtain ⟨ret', told, nonzero⟩ := all (some ret) (by simp)
        exact absurd (Option.some.inj told ▸ refused.1) nonzero
      · rw [if_neg refused]
        refine ⟨fun empty => absurd empty (by simp), fun all => ?_, fun some => ?_⟩
        · obtain ⟨ret', told, nonzero⟩ := all (some ret) (by simp)
          obtain ⟨unknown, -⟩ := judged.accepted fun v member => all v (List.mem_append_left _ member)
          exact ⟨unknown, fun _ => toUInt8_ne_zero (Option.some.inj told ▸ nonzero)⟩
        · -- The code of an earlier refusal is not taken back.
          apply judged.refused
          intro all
          obtain ⟨unknown, -⟩ := judged.accepted all
          apply some
          intro v member
          cases List.mem_append.mp member with
          | inl old => exact all v old
          | inr new => exact ⟨ret, List.mem_singleton.mp new, fun zero => refused ⟨zero, unknown⟩⟩

theorem judged_keeps {cfg : Config} (auth : cfg.auth ≠ .none) (check : CheckAuth) :
    TailInvariant cfg check Request.Judged where
  version _ _ judged := ⟨judged.fresh, judged.accepted, judged.refused⟩
  done _ judged := ⟨judged.fresh, judged.accepted, judged.refused⟩
  header q name value judged := by
    by_cases authorization : namesAuthorization cfg name = true
    · rw [recordHeader_authorization auth authorization]
      exact authorize_judged auth check value judged
    · unfold namesAuthorization at authorization
      unfold recordHeader
      rw [if_neg authorization]
      split
      · exact ⟨judged.fresh, judged.accepted, judged.refused⟩
      · split
        · exact ⟨judged.fresh, judged.accepted, judged.refused⟩
        · exact judged

theorem parseRequest_judged {cfg : Config} (auth : cfg.auth ≠ .none) {check : CheckAuth} {r : Reader}
    {q : Request} {text : List UInt8} (sent : r.Sent text) (unknown : q.returnCode = statusUnknown)
    (last : isBlank (q.url (cfg.urlBufferSize - 1)) = false) (log : q.authLog = [])
    (fresh : q.authenticated = 0) {m : HttpMethod} {rest : List UInt8}
    (token : requestMethod text = some (m, rest)) {p : Parsed}
    (h : (parseRequest cfg check r q).Returns p) : p.request.Judged := by
  obtain ⟨v, line, h⟩ := returns_bind.mp h
  obtain ⟨q', k, ends, lined⟩ := parseRequestLine_sent sent unknown last token line
  rw [if_pos ((endsLine_code ends).trans (lined.returnCode.trans unknown))] at h
  have empty : v.request.authLog = [] := (parseRequestLine_log line).trans log
  have flag : v.request.authenticated = 0 :=
    endsLine_keeps (fun q => q.authenticated = 0) (fun zero => zero) ends (lined.authenticated.trans fresh)
  have code : v.request.returnCode = statusUnknown :=
    (endsLine_code ends).trans (lined.returnCode.trans unknown)
  refine (judged_keeps auth check).parseHeaders h ⟨fun _ => flag, fun _ => ⟨code, ?_⟩, ?_⟩
  · exact fun some => absurd empty some
  · intro some
    rw [empty] at some
    exact absurd (fun _ member => absurd member List.not_mem_nil) some

/-! ## The answer -/

/-- The state whose request is routed: it wants what the text asks for. -/
structure Asked (cfg : Config) (conn : Connection) (s : State) (text : List UInt8) (asked : State) :
    Prop where
  registry : asked.registry = s.registry
  wanted : ∃ m rest q, requestMethod text = some (m, rest) ∧
    (s.accept cfg conn).request.Lined cfg m rest q ∧ asked.request.wanted = q.wanted

theorem execute_asked {cfg : Config} (auth : cfg.auth = .none) {conn : Connection} {s t : State}
    {text : List UInt8} (delivers : conn.Offers text) (reachable : Reachable cfg s)
    {m : HttpMethod} {rest : List UInt8} (token : requestMethod text = some (m, rest))
    (run : (execute cfg conn s).Returns t) :
    ∃ asked, Asked cfg conn s text asked ∧ Answers cfg (asked.route cfg) asked.request.method t := by
  obtain ⟨p, parse, run⟩ := returns_bind.mp run
  obtain ⟨u, answer, run⟩ := returns_bind.mp run
  rw [returns_pure.mp run]
  obtain ⟨q, lined, wanted, gate⟩ := parseRequest_wanted (delivers.sent cfg s) rfl
    (accept_last reachable conn) token parse
  obtain ⟨code, flag⟩ := gate auth
  have one : (s.accept cfg conn).request.authenticated = 1 := if_pos auth
  have nonzero : p.request.authenticated ≠ 0 := by
    rw [flag, one]
    decide
  let asked : State := { s.accept cfg conn with reader := p.reader, request := p.request }
  exact ⟨asked, ⟨rfl, m, rest, q, token, lined, wanted⟩,
    (@answer_routes cfg conn.visit asked ⟨rfl, rfl, rfl⟩ nonzero code).1 u answer⟩

/-- With authorization it has to be admitted. -/
theorem execute_admitted {cfg : Config} (auth : cfg.auth ≠ .none) {conn : Connection} {s t : State}
    {text : List UInt8} (delivers : conn.Offers text) (reachable : Reachable cfg s)
    (run : (execute cfg conn s).Returns t) : ∃ calls, Checks cfg conn s calls ∧
      (Admitted (verdicts conn.checkAuth calls) → ∃ asked, Asked cfg conn s text asked ∧
        Answers cfg (asked.route cfg) asked.request.method t) ∧
      (¬ Admitted (verdicts conn.checkAuth calls) →
        t.request.returnCode = statusUnauthorized ∧ t.written = unauthorizedResponse cfg) := by
  obtain ⟨p, parse, run⟩ := returns_bind.mp run
  obtain ⟨u, answer, run⟩ := returns_bind.mp run
  rw [returns_pure.mp run]
  obtain ⟨calls, checks, log⟩ := parseRequest_checks parse
  refine ⟨calls, checks, ?_⟩
  rw [← log]
  have zero : (s.accept cfg conn).request.authenticated = 0 := if_neg auth
  let asked : State := { s.accept cfg conn with reader := p.reader, request := p.request }
  change (respond cfg conn.visit asked).Returns u at answer
  have refused (code : asked.request.authenticated = 0 ∨
      asked.request.returnCode = statusUnauthorized) :
      (finish cfg u).request.returnCode = statusUnauthorized ∧
        (finish cfg u).written = unauthorizedResponse cfg := by
    refine @respond_unauthorized cfg conn.visit asked u ⟨rfl, rfl, rfl⟩ ?_ answer
    unfold State.authorized
    split
    · rfl
    · rename_i nonzero
      exact code.resolve_left nonzero
  cases token : requestMethod text with
  | none =>
      have request := parseRequest_refused (delivers.sent cfg s) token parse
      have flag : p.request.authenticated = 0 := by
        rw [request]
        exact zero
      have empty : p.request.authLog = [] := by
        rw [request]
        rfl
      exact ⟨fun admits => absurd empty admits.1, fun _ => refused (.inl flag)⟩
  | some pair =>
      have judged := parseRequest_judged auth (delivers.sent cfg s) rfl (accept_last reachable conn) rfl
        zero token parse
      obtain ⟨q, lined, wanted, -⟩ := parseRequest_wanted (delivers.sent cfg s) rfl
        (accept_last reachable conn) token parse
      refine ⟨fun admits => ?_, fun denied => refused ?_⟩
      · obtain ⟨code, flag⟩ := judged.accepted admits.2
        exact ⟨asked, ⟨rfl, pair.1, pair.2, q, token, lined, wanted⟩,
          (@answer_routes cfg conn.visit asked ⟨rfl, rfl, rfl⟩ (flag admits.1) code).1 u answer⟩
      · by_cases empty : p.request.authLog = []
        · exact .inl (judged.fresh empty)
        · exact .inr (judged.refused fun all => denied ⟨empty, all⟩)

end AttoHTTP
