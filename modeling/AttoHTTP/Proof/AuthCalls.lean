import AttoHTTP.Model.Server
import AttoHTTP.Proof.RequestInvariant

/-!
# The calls of the checker

The Authorization headers of a request in the order in which they come, each with the scheme and the
place in the value buffer that the checker is called with. The log of a request holds its results.
-/

namespace AttoHTTP
open Library Comp

/-- The type and where in which buffer the credentials start. -/
structure AuthCall where
  type : AuthType
  value : Mem
  start : Nat

def AuthCall.cred (c : AuthCall) : Mem := c.value.skip c.start

/-- The scheme that is looked for first of those whose name is part of the text. -/
def scheme (text : List UInt8) : Option AuthType :=
  authTypes.find? fun t => (strstr text t.name).isSome

def schemeCall (cfg : Config) (value : Mem) : Option AuthCall :=
  (scheme (value.cstr cfg.headerValueSize)).map fun t =>
    ⟨t, value, (strstr (value.cstr cfg.headerValueSize) t.name).getD 0 + t.name.length + 1⟩

def namesAuthorization (cfg : Config) (name : Mem) : Bool :=
  strncasecmpEq name (.ofBytes (ascii "authorization")) cfg.headerNameSize

/-- One for an Authorization header, without a call where no scheme is recognised. -/
def authCalls (cfg : Config) (name value : Mem) : List (Option AuthCall) :=
  if cfg.auth ≠ .none ∧ namesAuthorization cfg name = true then [schemeCall cfg value] else []

def verdictsFrom (check : CheckAuth) (k : Nat) (calls : List (Option AuthCall)) : List Verdict :=
  calls.mapIdx fun i call => call.map fun c => check (k + i) c.type c.cred

def verdicts (check : CheckAuth) (calls : List (Option AuthCall)) : List Verdict :=
  verdictsFrom check 0 calls

/-- The checker goes by the credentials up to their terminator. -/
def Textual (check : CheckAuth) : Prop :=
  ∀ k t m m', (∀ n, m.cstr n = m'.cstr n) → check k t m = check k t m'

variable {cfg : Config} {check : CheckAuth}

theorem verdictsFrom_append (k : Nat) (first second : List (Option AuthCall)) :
    verdictsFrom check k (first ++ second) =
      verdictsFrom check k first ++ verdictsFrom check (k + first.length) second := by
  simp only [verdictsFrom, List.mapIdx_append, Nat.add_comm, Nat.add_left_comm]

@[simp]
theorem length_verdictsFrom (k : Nat) (calls : List (Option AuthCall)) :
    (verdictsFrom check k calls).length = calls.length :=
  List.length_mapIdx

/-! ## One header -/

theorem name_told {name : Mem} {n : Nat} {a b : List UInt8} (long : 15 ≤ n)
    (plain : ∀ c ∈ a, c ≠ 0) (plain' : ∀ c ∈ b, c ≠ 0) (short : a.length ≤ 15) (short' : b.length ≤ 15)
    (other : a.map toLower ≠ b.map toLower) (same : strncasecmpEq name (.ofBytes a) n = true) :
    strncasecmpEq name (.ofBytes b) n = false := by
  rw [strncasecmpEq, Mem.cstr_ofBytes plain, List.take_of_length_le (by omega), beq_iff_eq] at same
  rw [strncasecmpEq, Mem.cstr_ofBytes plain', List.take_of_length_le (by omega), same]
  exact beq_eq_false_iff_ne.mpr other

theorem recordHeader_authorization (auth : cfg.auth ≠ .none) {name : Mem}
    (authorization : namesAuthorization cfg name = true) (value : Mem) (q : Request) :
    recordHeader cfg check name value q = authorize cfg check value q := by
  have told {b : List UInt8} := @name_told name cfg.headerNameSize (ascii "authorization") b cfg.name_ge
    (by decide)
  have accept := told (b := ascii "accept") (by decide) (by decide) (by decide) (by decide)
    authorization
  have type := told (b := ascii "content-type") (by decide) (by decide) (by decide) (by decide)
    authorization
  unfold namesAuthorization at authorization
  simp only [recordHeader, accept, type, authorization, Bool.false_eq_true, if_false, if_true,
    if_neg auth]

theorem authorize_call {value : Mem} {c : AuthCall} (call : schemeCall cfg value = some c)
    (q : Request) :
    authorize cfg check value q =
      { (checkAuth cfg check c.type c.cred q).2 with
        authenticated := (checkAuth cfg check c.type c.cred q).1.toUInt8
        authLog := (checkAuth cfg check c.type c.cred q).2.authLog ++
          [some (checkAuth cfg check c.type c.cred q).1] } := by
  obtain ⟨t, found, rfl⟩ := Option.map_eq_some_iff.mp call
  unfold scheme at found
  simp only [authorize, found]
  rfl

theorem authorize_none {value : Mem} (none : schemeCall cfg value = none) (q : Request) :
    authorize cfg check value q =
      { q with returnCode := statusUnauthorized, authLog := q.authLog ++ [Option.none] } := by
  have found := Option.map_eq_none_iff.mp none
  unfold scheme at found
  simp only [authorize, found]

theorem checkAuth_eq (auth : cfg.auth ≠ .none) (check : CheckAuth) (t : AuthType)
    (cred : Mem) (q : Request) :
    AttoHTTP.checkAuth cfg check t cred q = (check q.authLog.length t cred,
      if check q.authLog.length t cred = 0 ∧ q.returnCode = statusUnknown then
        { q with returnCode := statusUnauthorized }
      else q) := by
  simp only [AttoHTTP.checkAuth, if_neg auth]

theorem recordHeader_log (name value : Mem) (q : Request) :
    (recordHeader cfg check name value q).authLog =
      q.authLog ++ verdictsFrom check q.authLog.length (authCalls cfg name value) := by
  unfold authCalls
  by_cases asked : cfg.auth ≠ .none ∧ namesAuthorization cfg name = true
  · rw [if_pos asked, recordHeader_authorization asked.1 asked.2]
    cases call : schemeCall cfg value with
    | none =>
        rw [authorize_none call]
        rfl
    | some c =>
        rw [authorize_call call, checkAuth_eq asked.1]
        dsimp only
        split <;> rfl
  · rw [if_neg asked]
    have kept : (recordHeader cfg check name value q).authLog = q.authLog := by
      unfold recordHeader
      split
      · rfl
      · split
        · rfl
        · split
          · rename_i named
            rw [if_pos (by_contra fun auth => asked ⟨auth, named⟩)]
          · rfl
    rw [kept]
    exact (List.append_nil _).symm

/-! ## The header lines -/

inductive HeaderCalls (cfg : Config) (check : CheckAuth) : HeaderLoop → List (Option AuthCall) → Prop
  | done {l : HeaderLoop} (stop : moreHeaders l = false) : HeaderCalls cfg check l []
  | next {l l' : HeaderLoop} {calls : List (Option AuthCall)} (more : moreHeaders l = true)
      (parse : (parseHeader cfg l).Returns l')
      (rest : HeaderCalls cfg check
        { l' with request := recordHeader cfg check l'.name l'.value l'.request } calls) :
      HeaderCalls cfg check l (authCalls cfg l'.name l'.value ++ calls)

theorem HeaderCalls.unique {l : HeaderLoop} {calls calls' : List (Option AuthCall)}
    (h : HeaderCalls cfg check l calls) (h' : HeaderCalls cfg check l calls') : calls = calls' := by
  induction h generalizing calls' with
  | done stop =>
      cases h' with
      | done _ => rfl
      | next more _ _ => rw [stop] at more; cases more
  | next more parse rest ih =>
      cases h' with
      | done stop => rw [stop] at more; cases more
      | next more' parse' rest' =>
          obtain rfl := parse.unique parse'
          rw [ih rest']

theorem parseHeader_log {l l' : HeaderLoop} (h : (parseHeader cfg l).Returns l') :
    l'.request.authLog = l.request.authLog := by
  obtain ⟨f, -, h⟩ := returns_bind.mp h
  obtain ⟨t, -, h⟩ := returns_bind.mp h
  obtain ⟨g, -, h⟩ := returns_bind.mp h
  obtain ⟨p, line, h⟩ := returns_bind.mp h
  obtain ⟨u, -, line⟩ := returns_bind.mp line
  rw [returns_pure] at line h
  rw [h, line]
  dsimp only
  split <;> rfl

theorem headerCalls_loop {l l' : HeaderLoop}
    (run : (whileDoM moreHeaders (parseHeadersBody cfg check) l).Returns l') :
    ∃ calls, HeaderCalls cfg check l calls ∧
      l'.request.authLog =
        l.request.authLog ++ verdictsFrom check l.request.authLog.length calls := by
  refine whileDoM_induction (motive := fun l l' => ∃ calls, HeaderCalls cfg check l calls ∧
    l'.request.authLog = l.request.authLog ++ verdictsFrom check l.request.authLog.length calls)
    ?_ ?_ run
  · exact fun l stop => ⟨[], .done stop, (List.append_nil _).symm⟩
  · intro l m l' more body rest
    obtain ⟨calls, next, log⟩ := rest
    obtain ⟨parsed, parse, record⟩ := returns_bind.mp body
    rw [returns_pure.mp record] at next log
    refine ⟨_, .next more parse next, ?_⟩
    have now := @recordHeader_log cfg check parsed.name parsed.value parsed.request
    rw [parseHeader_log parse] at now
    rw [log, now, verdictsFrom_append, List.append_assoc, List.length_append, length_verdictsFrom]

/-! ## The request -/

/-- The calls of the checker while the connection is served. -/
inductive Checks (cfg : Config) (conn : Connection) (s : State) : List (Option AuthCall) → Prop
  | headers {p : Parsed} {calls : List (Option AuthCall)}
      (line : (parseRequestLine cfg (s.accept cfg conn).reader (s.accept cfg conn).request).Returns p)
      (unknown : p.request.returnCode = statusUnknown)
      (headers : HeaderCalls cfg conn.checkAuth
        ⟨1, p.reader.frame, p.reader.enter.frame, p.reader.enter.enter, p.request⟩ calls) :
      Checks cfg conn s calls
  | refused {p : Parsed}
      (line : (parseRequestLine cfg (s.accept cfg conn).reader (s.accept cfg conn).request).Returns p)
      (known : p.request.returnCode ≠ statusUnknown) : Checks cfg conn s []

theorem Checks.unique {conn : Connection} {s : State} {calls calls' : List (Option AuthCall)}
    (h : Checks cfg conn s calls) (h' : Checks cfg conn s calls') : calls = calls' := by
  cases h with
  | headers line unknown headers =>
      cases h' with
      | headers line' unknown' headers' =>
          obtain rfl := line.unique line'
          exact headers.unique headers'
      | refused line' known => exact absurd (line.unique line' ▸ unknown) known
  | refused line known =>
      cases h' with
      | headers line' unknown' headers' => exact absurd (line.unique line' ▸ unknown') known
      | refused line' known' => rfl

theorem parseRequestLine_log {r : Reader} {q : Request} {p : Parsed}
    (h : (parseRequestLine cfg r q).Returns p) : p.request.authLog = q.authLog := by
  obtain ⟨m, method, h⟩ := returns_bind.mp h
  have first : m.request.authLog = q.authLog := by
    obtain ⟨t, -, method⟩ := returns_bind.mp method
    split at method
    · obtain ⟨f, -, method⟩ := returns_bind.mp method
      dsimp only at method
      split at method <;> rw [returns_pure.mp method]
    · rw [returns_pure.mp method]
  split at h
  · obtain ⟨u, url, version⟩ := returns_bind.mp h
    obtain ⟨_, _, _, _, request⟩ := parseURL_sameButUrl url
    have keeps : TailInvariant { cfg with auth := .none } (fun _ _ _ => 0)
        fun q' => q'.authLog = q.authLog :=
      ⟨fun _ _ same => same, fun _ same => same, fun q' name value same => by
        rw [recordHeader_log, authCalls, if_neg (by simp), same]
        exact List.append_nil _⟩
    exact keeps.parseVersion version (by rw [request]; exact first)
  · rw [returns_pure.mp h]
    exact first

/-- The log of a request holds what the checker has returned to its calls, in order. -/
theorem parseRequest_checks {conn : Connection} {s : State} {p : Parsed}
    (h : (parseRequest cfg conn.checkAuth (s.accept cfg conn).reader
      (s.accept cfg conn).request).Returns p) :
    ∃ calls, Checks cfg conn s calls ∧ p.request.authLog = verdicts conn.checkAuth calls := by
  obtain ⟨v, line, h⟩ := returns_bind.mp h
  have fresh : v.request.authLog = [] := parseRequestLine_log line
  split at h
  · rename_i unknown
    obtain ⟨l, loop, h⟩ := returns_bind.mp h
    obtain ⟨calls, made, log⟩ := headerCalls_loop loop
    refine ⟨calls, .headers line unknown made, ?_⟩
    dsimp only at log
    rw [returns_pure.mp h, log, fresh]
    rfl
  · rename_i known
    refine ⟨[], .refused line known, ?_⟩
    rw [returns_pure.mp h, fresh]
    rfl

end AttoHTTP
