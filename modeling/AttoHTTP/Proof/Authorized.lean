import AttoHTTP.Proof.CredentialText
import AttoHTTP.Proof.Live

namespace AttoHTTP
open Library Comp

/-- The header holds a scheme, a space and these credentials, and fits its buffer. -/
structure Header.Presents (cfg : Config) (h : Header) (t : AuthType) (rest : List UInt8) : Prop where
  text : h.value = t.name ++ 32 :: rest
  scheme : scheme h.value = some t
  short : h.value.length < cfg.headerValueSize

/-- The checker takes its argument for a C string. -/
def ReadsString (check : CheckAuth) (judge : AuthType → List UInt8 → Int8) : Prop :=
  ∀ k t cred rest, (∀ b ∈ rest, b ≠ 0) → IsString cred rest → check k t cred = judge t rest

def Credentials.judged (a : Credentials) (ret : Int8) : Credentials where
  authenticated := ret.toUInt8
  returnCode :=
    if ret = 0 ∧ a.returnCode = statusUnknown then statusUnauthorized else a.returnCode
  authLog := a.authLog ++ [some ret]

theorem presents_rest {cfg : Config} {h : Header} {t : AuthType} {rest : List UInt8}
    (presents : h.Presents cfg t rest) : ∀ b ∈ rest, b ≠ 0 := by
  intro b member
  apply (h.value_plain b _).2.2
  rw [presents.text]
  exact List.mem_append_right _ (List.mem_cons_of_mem _ member)

theorem schemeCall_presents {cfg : Config} {h : Header} {t : AuthType} {rest : List UInt8}
    (presents : h.Presents cfg t rest) (m : Mem) :
    ∃ c, schemeCall cfg (m.put (h.value.take (cfg.headerValueSize - 1) ++ [0])) = some c ∧
      c.type = t ∧ IsString c.cred rest := by
  have nonzero : ∀ b ∈ h.value, b ≠ 0 := fun b member => (h.value_plain b member).2.2
  have all : h.value.take (cfg.headerValueSize - 1) = h.value := by
    apply List.take_of_length_le
    have := presents.short
    omega
  obtain ⟨i, front, found⟩ := @strstr_le [] (32 :: rest) t.name
  rw [List.nil_append, ← presents.text] at found
  obtain rfl : i = 0 := Nat.le_zero.mp front
  refine ⟨_, by rw [all]; exact schemeCall_kept nonzero presents.short presents.scheme found, rfl, ?_⟩
  have string := isString_put m (t.name ++ [32]) rest []
  have text : t.name ++ [32] ++ (rest ++ [0]) = h.value ++ [0] := by
    rw [presents.text]
    simp
  rw [text] at string
  rw [AuthCall.cred]
  simpa [Nat.add_assoc] using string

section Headers

variable {cfg : Config} {check : CheckAuth} {judge : AuthType → List UInt8 → Int8}

theorem recordHeader_presents (auth : cfg.auth ≠ .none) (reads : ReadsString check judge) {h : Header}
    {t : AuthType} {rest : List UInt8} (authorization : h.IsAuthorization)
    (presents : h.Presents cfg t rest) (name value : Mem) (q : Request) :
    (recordHeader cfg check (name.put (h.name.take (cfg.headerNameSize - 1) ++ [0]))
      (value.put (h.kept cfg ++ [0])) q).credentials = q.credentials.judged (judge t rest) := by
  obtain ⟨c, call, type, string⟩ := schemeCall_presents presents value
  have told := @namesAuthorization_text cfg h name
  rw [decide_eq_true authorization] at told
  rw [recordHeader_authorization auth told, kept_own authorization (by decide),
    authorize_call call, checkAuth_eq auth, type,
    reads _ t c.cred rest (presents_rest presents) string]
  dsimp only [Request.credentials, Credentials.judged]
  split <;> rfl

theorem recordHeader_other (check : CheckAuth) {h : Header} (other : ¬ h.IsAuthorization)
    (name value : Mem) (q : Request) :
    (recordHeader cfg check (name.put (h.name.take (cfg.headerNameSize - 1) ++ [0])) value q).credentials =
      q.credentials := by
  have told : strncasecmpEq (name.put (h.name.take (cfg.headerNameSize - 1) ++ [0]))
      (.ofBytes (ascii "authorization")) cfg.headerNameSize = _ :=
    headerName_text h name (by decide) (by decide)
  unfold recordHeader
  split
  · rfl
  · split
    · rfl
    · rw [told]
      exact congrArg Request.credentials (if_neg other)

def Presented (cfg : Config) (headers : List Header) (presented : List (AuthType × List UInt8)) :
    Prop :=
  List.Forall₂ (fun h p => h.Presents cfg p.1 p.2) (headers.filter fun h => decide h.IsAuthorization)
    presented

def Credentials.after (judge : AuthType → List UInt8 → Int8) (a : Credentials)
    (presented : List (AuthType × List UInt8)) : Credentials :=
  presented.foldl (fun a p => a.judged (judge p.1 p.2)) a

theorem headersLoop_presented (auth : cfg.auth ≠ .none) (reads : ReadsString check judge)
    {headers : List Header} {presented : List (AuthType × List UInt8)} {body : List GetByte}
    (each : Presented cfg headers presented) {l : HeaderLoop} (ahead : l.Ahead headers body) :
    ∃ l', (whileDoM moreHeaders (parseHeadersBody cfg check) l).Returns l' ∧
      l'.request.credentials = l.request.credentials.after judge presented := by
  induction headers generalizing presented l with
  | nil =>
      cases each
      exact ⟨l, (whileDoM_stop ahead.stop).mpr rfl, rfl⟩
  | cons h headers ih =>
      obtain ⟨l₁, header, name, value, request, next⟩ := parseHeader_text cfg ahead
      have kept : l₁.request.credentials = l.request.credentials := by rw [request]; rfl
      have again {presented : List (AuthType × List UInt8)} (each : Presented cfg headers presented) :
          ∃ l', (whileDoM moreHeaders (parseHeadersBody cfg check) l).Returns l' ∧
            l'.request.credentials = (recordHeader cfg check l₁.name l₁.value
              l₁.request).credentials.after judge presented := by
        obtain ⟨l', run, verdicts⟩ := ih each (next.record check)
        exact ⟨l', (whileDoM_next ahead.again).mpr ⟨_, header.bind (returns_pure.mpr rfl), run⟩,
          verdicts⟩
      rw [name, value] at again
      unfold Presented at each
      by_cases authorization : h.IsAuthorization
      · rw [List.filter_cons, if_pos (decide_eq_true authorization)] at each
        cases each with
        | cons presents each =>
            obtain ⟨l', run, verdicts⟩ := again each
            rw [recordHeader_presents auth reads authorization presents, kept] at verdicts
            exact ⟨l', run, verdicts⟩
      · rw [List.filter_cons, if_neg (by simpa using authorization)] at each
        obtain ⟨l', run, verdicts⟩ := again each
        rw [recordHeader_other check authorization, kept] at verdicts
        exact ⟨l', run, verdicts⟩

theorem parseRequest_presented (auth : cfg.auth ≠ .none) (reads : ReadsString check judge)
    (text : RequestText) {presented : List (AuthType × List UInt8)}
    (each : Presented cfg text.headers presented) {r : Reader} {q : Request} {body : List GetByte}
    (pending : r.pending = sends text.render ++ body) (unknown : q.returnCode = statusUnknown)
    (fresh : q.headersDone = false) (last : isBlank (q.url (cfg.urlBufferSize - 1)) = false) :
    ∃ r', (parseRequest cfg check r q).Returns ⟨1, r',
      (text.result cfg q).withCredentials (q.credentials.after judge presented)⟩ := by
  obtain ⟨r', a, run, -, -⟩ := parseRequest_credentials check text pending unknown fresh last
  obtain ⟨r₁, line, empty, more⟩ := parseRequestLine_text text pending unknown last
  obtain ⟨l, loop, verdicts⟩ := headersLoop_presented auth reads each
    (l := ⟨1, r₁.frame, r₁.enter.frame, r₁.enter.enter, _⟩)
    ⟨rfl, text.firstLine_done cfg fresh, empty, more⟩
  have parse : (parseRequest cfg check r q).Returns ⟨l.ret, l.reader, l.request⟩ := by
    refine line.bind ?_
    rw [if_pos ((text.firstLine_returnCode cfg q).trans unknown)]
    exact loop.bind (returns_pure.mpr rfl)
  have same : a = q.credentials.after judge presented := by
    have request := congrArg (fun p : Parsed => p.request.credentials) (run.unique parse)
    change a = l.request.credentials at request
    rw [request, verdicts]
    cases text.headers <;> rfl
  exact ⟨r', same ▸ run⟩

end Headers

/-! ## The verdicts together -/

section Verdicts

variable {judge : AuthType → List UInt8 → Int8} {presented : List (AuthType × List UInt8)}
  {a : Credentials}

theorem after_accepted (all : ∀ p ∈ presented, judge p.1 p.2 ≠ 0) :
    (a.after judge presented).returnCode = a.returnCode ∧
      (presented ≠ [] → (a.after judge presented).authenticated ≠ 0) := by
  induction presented generalizing a with
  | nil => exact ⟨rfl, fun some => absurd rfl some⟩
  | cons p presented ih =>
      have nonzero : judge p.1 p.2 ≠ 0 := all p List.mem_cons_self
      obtain ⟨code, rest⟩ := @ih (a.judged (judge p.1 p.2))
        fun p member => all p (List.mem_cons_of_mem _ member)
      refine ⟨code.trans (if_neg fun refused => nonzero refused.1), fun _ => ?_⟩
      cases presented with
      | nil => exact toUInt8_ne_zero nonzero
      | cons p' presented => exact rest (List.cons_ne_nil _ _)

theorem after_unauthorized (code : a.returnCode = statusUnauthorized) :
    (a.after judge presented).returnCode = statusUnauthorized := by
  induction presented generalizing a with
  | nil => exact code
  | cons p presented ih =>
      have known : a.returnCode ≠ statusUnknown := by
        rw [code]
        decide
      exact ih ((if_neg fun refused => known refused.2).trans code)

theorem after_refused (unknown : a.returnCode = statusUnknown)
    (refused : ∃ p ∈ presented, judge p.1 p.2 = 0) :
    (a.after judge presented).returnCode = statusUnauthorized := by
  induction presented generalizing a with
  | nil => simp at refused
  | cons p presented ih =>
      change ((a.judged (judge p.1 p.2)).after judge presented).returnCode = _
      by_cases zero : judge p.1 p.2 = 0
      · exact after_unauthorized (if_pos ⟨zero, unknown⟩)
      · apply ih
        · exact (if_neg fun refused => zero refused.1).trans unknown
        · obtain ⟨p', member, zero'⟩ := refused
          cases List.mem_cons.mp member with
          | inl same => exact absurd (same ▸ zero') zero
          | inr later => exact ⟨p', later, zero'⟩

end Verdicts

/-- The request is served when the checker accepts all credentials it presents, and there are some;
otherwise it is refused. -/
def Served (cfg : Config) (conn : Connection) (s : State) (site : Site)
    (judge : AuthType → List UInt8 → Int8) (presented : List (AuthType × List UInt8))
    (text : RequestText) (t : State) : Prop :=
  if presented ≠ [] ∧ ∀ p ∈ presented, judge p.1 p.2 ≠ 0 then Routed cfg conn s site text t
  else t.request.returnCode = statusUnauthorized ∧ t.written = unauthorizedResponse cfg

theorem live_served {cfg : Config} (auth : cfg.auth ≠ .none) {s : State} {site : Site}
    (live : Live cfg s site) (text : RequestText) (path : 63 ∉ text.target)
    (short : text.target.length < cfg.urlBufferSize) (conn : Connection)
    {judge : AuthType → List UInt8 → Int8} (reads : ReadsString conn.checkAuth judge)
    {presented : List (AuthType × List UInt8)} (each : Presented cfg text.headers presented)
    (body : List GetByte) (input : conn.input = sends text.render ++ body) {t : State}
    (served : (execute cfg conn s).Returns t) : Served cfg conn s site judge presented text t := by
  have size := cfg.url_ge
  have last : isBlank ((s.accept cfg conn).request.url (cfg.urlBufferSize - 1)) = false :=
    live.unblank _ (by omega)
  obtain ⟨r', parse⟩ := parseRequest_presented auth reads text each
    (show (s.accept cfg conn).reader.pending = _ from input)
    (show (s.accept cfg conn).request.returnCode = _ from rfl) rfl last
  unfold Served
  split
  · rename_i accepted
    obtain ⟨code, authenticated⟩ := @after_accepted judge presented
      (s.accept cfg conn).request.credentials accepted.2
    exact (execute_routed live.holds path short parse (authenticated accepted.1) code).1 t served
  · rename_i refused
    let asked : State :=
      { s.accept cfg conn with
        reader := r'
        request := (text.result cfg (s.accept cfg conn).request).withCredentials
          ((s.accept cfg conn).request.credentials.after judge presented) }
    obtain ⟨u, answer, done⟩ := returns_bind.mp (parse.bind_iff.mp served)
    rw [returns_pure.mp done]
    apply @respond_unauthorized cfg conn.visit asked u ⟨rfl, rfl, rfl⟩ _ answer
    rw [State.authorized]
    cases presented with
    | nil => rw [if_pos (show asked.request.authenticated = 0 from if_neg auth)]; rfl
    | cons p presented =>
        have code : asked.request.returnCode = statusUnauthorized := by
          apply after_refused rfl
          by_contra none
          apply refused
          refine ⟨List.cons_ne_nil _ _, fun p' member zero => none ⟨p', member, zero⟩⟩
        split
        · rfl
        · exact code

/-- While the site grows, every request in a run is served or refused by the verdicts on the
credentials it presents. -/
theorem authorized_answers {cfg : Config} (auth : cfg.auth ≠ .none) {boot s : State}
    {before after : List Action} {conn : Connection} (booted : Booted cfg boot)
    (proper : ∀ action ∈ before, action.Proper cfg)
    (run : Steps (Acts cfg) (boot.init cfg) (before ++ .serve conn :: after) s) (text : RequestText)
    (path : 63 ∉ text.target) (short : text.target.length < cfg.urlBufferSize) (body : List GetByte)
    (input : conn.input = sends text.render ++ body) {judge : AuthType → List UInt8 → Int8}
    (reads : ReadsString conn.checkAuth judge) {presented : List (AuthType × List UInt8)}
    (each : Presented cfg text.headers presented) :
    ∃ m t, Steps (Acts cfg) (boot.init cfg) before m ∧ (execute cfg conn m).Returns t ∧
      Steps (Acts cfg) t after s ∧
      Served cfg conn m (before.foldl (Site.act cfg) Site.init) judge presented text t := by
  obtain ⟨m, t, first, served, later⟩ := steps_serve run
  have live := live_steps booted proper first
  exact ⟨m, t, first, served, later,
    live_served auth live text path short conn reads each body input served⟩

def meJudge (t : AuthType) (rest : List UInt8) : Int8 :=
  if t = .basic ∧ rest = ascii "bWU6bWU=" then 1 else 0

def meCheck : CheckAuth := fun _ t cred => meJudge t (cred.cstr 64)

def meRequest : RequestText := { iconRequest with headers := [oldHeader, authHeader] }

def meConnection : Connection :=
  { Connection.ofBytes meRequest.render with checkAuth := meCheck }

theorem authHeader_presents :
    authHeader.Presents (.default .basic) .basic (ascii "bWU6bWU=") where
  text := rfl
  scheme := by decide +kernel
  short := by decide

theorem meCheck_reads : ReadsString meCheck meJudge := by
  intro k t cred rest nonzero string
  have text : cred.cstr 64 = rest.take 64 := string.cstr nonzero 64
  have same : rest.take 64 = ascii "bWU6bWU=" ↔ rest = ascii "bWU6bWU=" := by
    constructor
    · intro cut
      have length := congrArg List.length cut
      rw [List.length_take] at length
      change min 64 rest.length = 8 at length
      rw [← cut, List.take_of_length_le (by omega)]
    · rintro rfl
      rfl
  simp only [meCheck, meJudge, text, same]

theorem authorized_answers_me : ∃ m t,
    Steps (Acts (.default .basic)) (State.boot.init (.default .basic))
        [.register (.eventsURL (ascii "/events"))] m ∧
      (execute (.default .basic) meConnection m).Returns t ∧
      Steps (Acts (.default .basic)) t [] t ∧
      Served (.default .basic) meConnection m
        ([.register (.eventsURL (ascii "/events"))].foldl (Site.act (.default .basic)) Site.init)
        meJudge [(.basic, ascii "bWU6bWU=")] meRequest t := by
  let call : Registration := .eventsURL (ascii "/events")
  obtain ⟨t, served⟩ := execute_total (.default .basic) meConnection
    { State.boot.init (.default .basic) with
      registry := (call.apply (.default .basic) (State.boot.init (.default .basic)).registry).2 } rfl
  obtain ⟨m, t', first, served', later, answers⟩ :=
    @authorized_answers (.default .basic) (by decide) State.boot t [.register call] [] meConnection
      (fun _ _ => rfl) (events_proper .basic) (.cons (.register call) (.cons (.serve served) (.nil _)))
      meRequest (by decide) (by decide) [] (List.append_nil _).symm meJudge meCheck_reads
      [(.basic, ascii "bWU6bWU=")] (.cons authHeader_presents .nil)
  cases later
  exact ⟨m, _, first, served', .nil _, answers⟩

end AttoHTTP
