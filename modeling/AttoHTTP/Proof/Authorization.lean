import AttoHTTP.Proof.AuthCalls
import AttoHTTP.Proof.Lasting

/-!
# The authorization gate

The flag `_attoHTTP_authenticated` and the return code are set by different headers. What matters
is what they say together about the verdicts of the checker in this request.
-/

namespace AttoHTTP
open Library Comp

/-- Content, an event stream, or control handed to the callback. -/
def Event.isService : Event → Bool
  | .pageContent => true
  | .eventStream => true
  | .callback _ => true
  | _ => false

def Accepted (verdict : Verdict) : Prop := ∃ ret, verdict = some ret ∧ ret ≠ 0

/-- The two variables against the verdicts so far. -/
structure Request.Gated (q : Request) : Prop where
  unknown : q.returnCode = statusUnknown → ∀ verdict ∈ q.authLog, Accepted verdict
  authenticated : q.authenticated ≠ 0 → ∃ verdict ∈ q.authLog, Accepted verdict

theorem gated_of_code {q : Request} (gated : q.Gated) {code : ReturnCode}
    (known : code ≠ statusUnknown) : { q with returnCode := code }.Gated :=
  ⟨fun unknown => absurd unknown known, gated.authenticated⟩

theorem int8_toUInt8_ne_zero {ret : Int8} (h : ret.toUInt8 ≠ 0) : ret ≠ 0 := by
  intro zero
  rw [zero] at h
  exact h rfl

theorem toUInt8_ne_zero {ret : Int8} (nonzero : ret ≠ 0) : ret.toUInt8 ≠ 0 := by
  intro zero
  have back := congrArg UInt8.toInt8 zero
  rw [Int8.toInt8_toUInt8] at back
  exact nonzero back

theorem authorize_gated {cfg : Config} (auth : cfg.auth ≠ .none) (check : CheckAuth) (value : Mem)
    {q : Request} (gated : q.Gated) : (authorize cfg check value q).Gated := by
  simp only [authorize]
  split
  · rename_i t _
    rw [checkAuth_eq auth]
    dsimp only
    generalize check q.authLog.length t _ = ret
    by_cases refused : ret = 0 ∧ q.returnCode = statusUnknown
    · rw [if_pos refused]
      constructor
      · intro unknown
        exact absurd unknown (show ¬ statusUnauthorized = statusUnknown by decide)
      · intro nonzero
        exact absurd refused.1 (int8_toUInt8_ne_zero nonzero)
    · rw [if_neg refused]
      constructor
      · intro unknown verdict member
        cases List.mem_append.mp member with
        | inl old => exact gated.unknown unknown verdict old
        | inr new =>
            rw [List.mem_singleton] at new
            exact ⟨ret, new, fun zero => refused ⟨zero, unknown⟩⟩
      · intro nonzero
        exact ⟨some ret, by simp, ret, rfl, int8_toUInt8_ne_zero nonzero⟩
  · constructor
    · intro unknown
      exact absurd unknown (show ¬ statusUnauthorized = statusUnknown by decide)
    · intro nonzero
      obtain ⟨verdict, member, accepted⟩ := gated.authenticated nonzero
      exact ⟨verdict, List.mem_append_left _ member, accepted⟩

theorem gated_keeps {cfg : Config} (auth : cfg.auth ≠ .none) (check : CheckAuth) :
    RequestInvariant cfg check Request.Gated where
  method _ _ gated := ⟨gated.unknown, gated.authenticated⟩
  version _ _ gated := ⟨gated.unknown, gated.authenticated⟩
  url _ _ _ parse gated := by
    obtain ⟨_, _, _, _, request⟩ := parseURL_sameButUrl parse
    rw [request]
    exact ⟨gated.unknown, gated.authenticated⟩
  done _ gated := ⟨gated.unknown, gated.authenticated⟩
  unsupported _ gated := gated_of_code gated (by decide)
  failed _ gated := gated_of_code gated (by decide)
  header q name value gated := by
    unfold recordHeader
    split
    · exact ⟨gated.unknown, gated.authenticated⟩
    · split
      · exact ⟨gated.unknown, gated.authenticated⟩
      · split
        · exact authorize_gated auth check value gated
        · exact gated

/-! ## The refusal -/

def unauthorizedResponse (cfg : Config) : List UInt8 :=
  statusLineText 401 (ascii "Unauthorized") ++ authBlock cfg

theorem written_wire (bytes : List UInt8) : (wire bytes).filterMap Event.byte? = bytes := by
  induction bytes with
  | nil => rfl
  | cons b bytes ih => simpa [wire, Event.byte?] using ih

theorem finish_unauthorized (cfg : Config) {s : State} (silent : s.Silent)
    (code : s.request.returnCode = statusUnauthorized) :
    (finish cfg s).request.returnCode = statusUnauthorized ∧
      (finish cfg s).written = unauthorizedResponse cfg := by
  have line := firstLine_fresh cfg statusUnauthorized.toUInt16 silent.firstlineSent
  rw [← ensureFirstLine_eq] at line
  have unsent : (ensureFirstLine cfg statusUnauthorized.toUInt16 s).writer.headersSent = false := by
    rw [line.writer.headersSent]
    exact silent.headersSent
  have block := sendAuthMessage_emits unsent
  rw [finish, if_pos code]
  constructor
  · rw [answered_known (sendAuthMessage_answered cfg s) (by decide), code]
  · have first : (ensureFirstLine cfg statusUnauthorized.toUInt16 s).writer.trace =
        [] ++ statusLineEvents 401 := by
      rw [line.writer.trace]
      exact congrArg (· ++ statusLineEvents 401) silent.trace
    rw [State.written, block.writer.trace]
    change ((ensureFirstLine cfg statusUnauthorized.toUInt16 s).writer.trace ++ _).filterMap _ = _
    rw [first]
    simp [statusLineEvents, List.filterMap_cons, Event.byte?, written_wire, unauthorizedResponse,
      reasonPhrase]

theorem service_head {events : List Event} (head : ∀ e ∈ events, e.isHead) :
    ∀ e ∈ events, ¬ e.isService := by
  intro e member
  have part := head e member
  cases e <;> simp_all [Event.isHead, Event.isService]

theorem gated_served {q : Request} (gated : q.Gated) (unknown : q.returnCode = statusUnknown)
    (nonzero : q.authenticated ≠ 0) :
    q.authLog ≠ [] ∧ ∀ verdict ∈ q.authLog, Accepted verdict := by
  obtain ⟨verdict, member, -⟩ := gated.authenticated nonzero
  exact ⟨List.ne_nil_of_mem member, gated.unknown unknown⟩

theorem authorized_unknown {s : State} (unknown : s.authorized.request.returnCode = statusUnknown) :
    s.request.returnCode = statusUnknown ∧ s.request.authenticated ≠ 0 ∧ s.authorized = s := by
  unfold State.authorized at unknown ⊢
  split at unknown
  · exact absurd unknown (show ¬ statusUnauthorized = statusUnknown by decide)
  · rename_i nonzero
    exact ⟨unknown, nonzero, if_neg nonzero⟩

theorem authorized_silent {s : State} (silent : s.Silent) : s.authorized.Silent := by
  unfold State.authorized
  split
  · exact ⟨silent.headersSent, silent.firstlineSent, silent.trace⟩
  · exact silent

theorem respond_unauthorized {cfg : Config} {visit : Nat} {s u : State} (silent : s.Silent)
    (code : s.authorized.request.returnCode = statusUnauthorized)
    (answer : (respond cfg visit s).Returns u) :
    (finish cfg u).request.returnCode = statusUnauthorized ∧
      (finish cfg u).written = unauthorizedResponse cfg := by
  rw [respond_returns, if_neg (by rw [code]; decide)] at answer
  rw [answer]
  exact finish_unauthorized cfg (authorized_silent silent) code

theorem answer_authLog {cfg : Config} {visit : Nat} {s u : State}
    (h : (respond cfg visit s).Returns u) :
    (finish cfg u).request.authLog = s.request.authLog := by
  rw [authLog_of_lasting (finish_lasting cfg u)]
  cases respond_lasting h with
  | inl same => exact authLog_of_lasting same
  | inr cut =>
      have same : u.request.authLog = (s.withPath cfg).request.authLog := authLog_of_lasting cut.2
      exact same

theorem answer_gated {cfg : Config} {visit : Nat} {s u : State} (silent : s.Silent)
    (gated : s.request.Gated) (h : (respond cfg visit s).Returns u) :
    (finish cfg u).request.authLog = s.request.authLog ∧
      ((s.request.authLog ≠ [] ∧ ∀ verdict ∈ s.request.authLog, Accepted verdict) ∨
        (∀ e ∈ (finish cfg u).writer.trace, ¬ e.isService) ∧
          ((∀ verdict ∈ s.request.authLog, ¬ Accepted verdict) →
            (finish cfg u).request.returnCode = statusUnauthorized ∧
              (finish cfg u).written = unauthorizedResponse cfg)) := by
  refine ⟨answer_authLog h, ?_⟩
  rw [respond_returns] at h
  split at h
  · rename_i unknown
    obtain ⟨code, nonzero, same⟩ := authorized_unknown unknown
    exact .inl (gated_served gated code nonzero)
  · rw [h]
    refine .inr ⟨?_, fun refused => ?_⟩
    · obtain ⟨code, answered, -⟩ := finish_answered cfg s.authorized
      obtain ⟨events, trace, head⟩ := answered.trace
      rw [trace, (authorized_silent silent).trace]
      exact service_head head
    · apply finish_unauthorized cfg (authorized_silent silent)
      have zero : s.request.authenticated = 0 := by
        by_contra nonzero
        obtain ⟨verdict, member, accepted⟩ := gated.authenticated nonzero
        exact refused verdict member accepted
      rw [State.authorized, if_pos zero]
      rfl

/-- In a build with authorization a request is served only if it carries Authorization headers and
the checker accepts each of them; a request with no accepted header gets the fixed answer. The verdicts
are what the checker has returned when it was called for these headers. -/
theorem execute_gated {cfg : Config} (auth : cfg.auth ≠ .none) (conn : Connection) (s : State) :
    (conn.atEnd.ret = 0 → ∃ t, (execute cfg conn s).Returns t) ∧
      ∀ t, (execute cfg conn s).Returns t →
        (∃ calls, Checks cfg conn s calls ∧ t.request.authLog = verdicts conn.checkAuth calls) ∧
        ((∃ e ∈ t.writer.trace, e.isService) →
          t.request.authLog ≠ [] ∧ ∀ verdict ∈ t.request.authLog, Accepted verdict) ∧
        ((∀ verdict ∈ t.request.authLog, ¬ Accepted verdict) →
          t.request.returnCode = statusUnauthorized ∧ t.written = unauthorizedResponse cfg) := by
  refine ⟨execute_total cfg conn s, fun t h => ?_⟩
  obtain ⟨p, parse, h⟩ := returns_bind.mp h
  obtain ⟨u, answer, h⟩ := returns_bind.mp h
  rw [returns_pure] at h
  have start : (s.accept cfg conn).request.Gated := by
    constructor
    · intro _ verdict member
      cases member
    · intro nonzero
      exact absurd (if_neg auth) nonzero
  have gated := (gated_keeps auth conn.checkAuth).parseRequest parse start
  have silent := accept_silent cfg conn s
  obtain ⟨log, outcome⟩ := answer_gated
    (s := { s.accept cfg conn with reader := p.reader, request := p.request })
    ⟨silent.headersSent, silent.firstlineSent, silent.trace⟩ gated answer
  rw [h, log]
  refine ⟨parseRequest_checks parse, ?_⟩
  cases outcome with
  | inl served =>
      refine ⟨fun _ => served, fun refused => ?_⟩
      obtain ⟨verdict, member⟩ := List.exists_mem_of_ne_nil _ served.1
      exact absurd (served.2 verdict member) (refused verdict member)
  | inr denied =>
      refine ⟨fun service => ?_, denied.2⟩
      obtain ⟨e, member, service⟩ := service
      exact absurd service (denied.1 e member)

def guesser : Connection :=
  { Connection.ofBytes (ascii ("GET /favicon.ico HTTP/1.0\r\nAuthorization: Basic bWU6\r\n" ++
      "Authorization: Basic eW91Og==\r\n\r\n")) with
    checkAuth := fun k _ _ => if k = 0 then 1 else 0 }

theorem execute_gated_guesser : ∃ t calls,
    (execute (.default .basic) guesser (State.boot.setUp (.default .basic) [])).Returns t ∧
    Checks (.default .basic) guesser (State.boot.setUp (.default .basic) []) calls ∧
    t.request.authLog = verdicts guesser.checkAuth calls ∧ t.request.authLog = [some 1, some 0] ∧
    ¬ ∃ e ∈ t.writer.trace, e.isService := by
  obtain ⟨t, run, log⟩ := returns_of_run (n := 100)
    (x := execute (.default .basic) guesser (State.boot.setUp (.default .basic) []))
    (f := fun t => t.request.authLog) (b := [some 1, some 0]) (by decide +kernel)
  obtain ⟨⟨calls, checks, same⟩, served, -⟩ :=
    (execute_gated (by decide) guesser (State.boot.setUp (.default .basic) [])).2 t run
  refine ⟨t, calls, run, checks, same, log, fun service => ?_⟩
  have accepted := (served service).2 (some 0) (by simp [log])
  obtain ⟨ret, told, nonzero⟩ := accepted
  exact nonzero (Option.some.inj told).symm

end AttoHTTP
