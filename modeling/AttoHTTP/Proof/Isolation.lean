import AttoHTTP.Proof.Admission

/-!
# What an earlier request leaves behind

Of the variables that outlive a request only the URL buffer is not reset, and the automatic variables
hold what the stack has held. A text is answered alike after every history unless it breaks off before
its target or offers credentials that it does not bring.
-/

namespace AttoHTTP
open Library Comp

/-! ## What decides the answer -/

/-- The connection ends after the method and the blanks behind it. -/
def cutBeforeTarget (text : List UInt8) : Bool :=
  match requestMethod text with
  | none => false
  | some (_, rest) => rest.all isBlank

/-- No checker admits this. -/
def Hopeless (offers : List (Option Offer)) : Prop := offers = [] ∨ none ∈ offers

/-- What is offered does not depend on memory that has not been written, or does not matter. -/
def SettledOffers (cfg : Config) (text : List UInt8) : Prop :=
  (∀ pushed, Hopeless (requestOffers cfg pushed text)) ∨
    requestOffers cfg true text = requestOffers cfg false text ∧
      ∀ o ∈ requestOffers cfg true text, o.all (fun offer => offer.text.isSome) = true

instance (offers : List (Option Offer)) : Decidable (Hopeless offers) :=
  inferInstanceAs (Decidable (offers = [] ∨ none ∈ offers))

instance (cfg : Config) (text : List UInt8) : Decidable (SettledOffers cfg text) :=
  inferInstanceAs (Decidable ((∀ pushed, Hopeless (requestOffers cfg pushed text)) ∨
    requestOffers cfg true text = requestOffers cfg false text ∧
      ∀ o ∈ requestOffers cfg true text, o.all (fun offer => offer.text.isSome) = true))

/-- Whatever has been served before and whatever it has left on the stack, this text gets the same
answer. A checker is the same for both, and it goes by the credentials up to their terminator. -/
def Isolated (cfg : Config) (text : List UInt8) : Prop :=
  ∀ boot calls history history' s s' (conn conn' : Connection) t t', Booted cfg boot →
    (∀ callback, Registration.defaultREST (some callback) ∉ calls) →
    Serves cfg (boot.setUp cfg calls) history s → Serves cfg (boot.setUp cfg calls) history' s' →
    conn.Offers text → conn'.Offers text →
    conn'.checkAuth = conn.checkAuth → (cfg.auth ≠ .none → Textual conn.checkAuth) →
    (execute cfg conn s).Returns t → (execute cfg conn' s').Returns t' →
    t.request.returnCode = t'.request.returnCode ∧ t.written = t'.written

example : ¬ SettledOffers (.default .basic)
    (ascii "GET / HTTP/1.0\r\nAuthorization: Basic\r\n\r\n") := by decide

/-! ## The same answer -/

theorem cutBeforeTarget_iff {text : List UInt8} {m : HttpMethod} {rest : List UInt8}
    (token : requestMethod text = some (m, rest)) :
    cutBeforeTarget text = true ↔ rest.dropWhile isBlank = [] := by
  rw [cutBeforeTarget, token, List.dropWhile_eq_nil_iff]
  exact List.all_eq_true

theorem requestOffers_cut (cfg : Config) (pushed : Bool) {text : List UInt8}
    (cut : cutBeforeTarget text = true) : requestOffers cfg pushed text = [] := by
  unfold requestOffers
  cases token : requestMethod text with
  | none => rfl
  | some pair =>
      have blank := (@cutBeforeTarget_iff text pair.1 pair.2 token).mp cut
      have empty : targetRest pair.2 = [] := by
        rw [targetRest, skipSpace, blank]
        rfl
      dsimp only
      rw [headText_short pushed (by rw [empty]; simp)]

theorem asked_same {cfg : Config} {conn conn' : Connection} {s s' : State} {text : List UInt8}
    {asked asked' : State} (h : Asked cfg conn s text asked) (h' : Asked cfg conn' s' text asked')
    (registry : s'.registry = s.registry) (pages : s.registry.callback = none)
    (whole : cutBeforeTarget text = false) :
    asked.request.method = asked'.request.method ∧ asked.route cfg = asked'.route cfg := by
  obtain ⟨m, rest, q, token, lined, wanted⟩ := h.wanted
  obtain ⟨m', rest', q', token', lined', wanted'⟩ := h'.wanted
  obtain ⟨rfl, rfl⟩ := Prod.mk.inj (Option.some.inj (token.symm.trans token'))
  have target : rest.dropWhile isBlank ≠ [] := fun blank => by
    rw [(cutBeforeTarget_iff token).mpr blank] at whole
    cases whole
  obtain ⟨url, len⟩ := lined.target target
  obtain ⟨url', len'⟩ := lined'.target target
  have sameMethod : asked.request.method = asked'.request.method := by
    rw [show asked.request.method = q.method from congrArg Wanted.method wanted, lined.method,
      show asked'.request.method = q'.method from congrArg Wanted.method wanted', lined'.method]
  have sameLen : asked.request.urlLen = asked'.request.urlLen := by
    rw [show asked.request.urlLen = q.urlLen from congrArg Wanted.urlLen wanted, len,
      show asked'.request.urlLen = q'.urlLen from congrArg Wanted.urlLen wanted', len']
  have cells (n : Nat) : asked.request.url.cstr n = asked'.request.url.cstr n := by
    rw [show asked.request.url = q.url from congrArg Wanted.url wanted, url, Mem.cstr_put_prefix,
      show asked'.request.url = q'.url from congrArg Wanted.url wanted', url', Mem.cstr_put_prefix]
  have same : asked'.registry = asked.registry := by rw [h'.registry, registry, h.registry]
  refine ⟨sameMethod, ?_⟩
  have entry : findPageEntry cfg asked.request asked.registry =
      findPageEntry cfg asked'.request asked'.registry := by
    simp only [findPageEntry, isDefaultPath, checkPage, strncmpEq, cells, same, sameLen]
  have events : isEventsPath cfg asked.request asked.registry =
      isEventsPath cfg asked'.request asked'.registry := by
    simp only [isEventsPath, strncmpEq, cells, same]
  unfold State.route
  rw [entry, events, sameMethod, same, h.registry, pages]

theorem route_response {cfg : Config} {s : State} (pages : s.registry.callback = none) :
    ∃ code bytes, (s.route cfg).response cfg = some (code, bytes) ∧ code ≠ statusUnauthorized := by
  unfold State.route
  rw [pages]
  split
  · split <;> exact ⟨_, _, rfl, by decide⟩
  · split <;> exact ⟨_, _, rfl, by decide⟩

theorem answers_same {cfg : Config} {conn conn' : Connection} {s s' : State} {text : List UInt8}
    {asked asked' t t' : State} (h : Asked cfg conn s text asked) (h' : Asked cfg conn' s' text asked')
    (registry : s'.registry = s.registry) (pages : s.registry.callback = none)
    (whole : cutBeforeTarget text = false)
    (answer : Answers cfg (asked.route cfg) asked.request.method t)
    (answer' : Answers cfg (asked'.route cfg) asked'.request.method t') :
    t.request.returnCode = t'.request.returnCode ∧ t.written = t'.written := by
  obtain ⟨-, route⟩ := asked_same h h' registry pages whole
  obtain ⟨code, bytes, response, -⟩ := @route_response cfg asked (by rw [h.registry, pages])
  obtain ⟨reported, written⟩ := answer.response code bytes response
  obtain ⟨reported', written'⟩ := answer'.response code bytes (route ▸ response)
  exact ⟨reported.trans reported'.symm, written.trans written'.symm⟩

theorem finish_same (cfg : Config) {s s' : State} (silent : s.Silent) (silent' : s'.Silent)
    (code : s.request.returnCode = s'.request.returnCode) :
    (finish cfg s).request.returnCode = (finish cfg s').request.returnCode ∧
      (finish cfg s).written = (finish cfg s').written := by
  have line (number : UInt16) : (firstLine cfg number s).state.request.returnCode =
        (firstLine cfg number s').state.request.returnCode ∧
      (firstLine cfg number s).state.written = (firstLine cfg number s').state.written := by
    rw [State.written, State.written, firstLine_trace cfg number silent,
      firstLine_trace cfg number silent', (firstLine_fresh cfg number silent.firstlineSent).request,
      (firstLine_fresh cfg number silent'.firstlineSent).request]
    refine ⟨?_, rfl⟩
    simp only [State.lineSent, Request.afterLine]
    split
    · exact code
    · rfl
  by_cases refused : s.request.returnCode = statusUnauthorized
  · obtain ⟨first, bytes⟩ := finish_unauthorized cfg silent refused
    obtain ⟨first', bytes'⟩ := finish_unauthorized cfg silent' (code ▸ refused)
    exact ⟨first.trans first'.symm, bytes.trans bytes'.symm⟩
  · unfold finish
    rw [← code, if_neg refused, if_neg refused]
    split <;> exact line _

theorem execute_refused {cfg : Config} (auth : cfg.auth = .none) {conn : Connection} {s t : State}
    {text : List UInt8} (delivers : conn.Offers text) (token : requestMethod text = none)
    (run : (execute cfg conn s).Returns t) : ∃ u : State, u.Silent ∧
      u.request.returnCode = methodRefusal text ∧ t = finish cfg u := by
  obtain ⟨p, parse, run⟩ := returns_bind.mp run
  obtain ⟨u, answer, run⟩ := returns_bind.mp run
  have request := parseRequest_refused (delivers.sent cfg s) token parse
  have flag : p.request.authenticated ≠ 0 := by
    rw [request, show (s.accept cfg conn).request.authenticated = 1 from if_pos auth]
    decide
  have code : p.request.returnCode = methodRefusal text := by rw [request]
  rw [respond_returns, State.authorized, if_neg flag, if_neg (by rw [code]; exact methodRefusal_known text)]
    at answer
  exact ⟨u, by rw [answer]; exact ⟨rfl, rfl, rfl⟩, by rw [answer]; exact code, returns_pure.mp run⟩

/-! ## The registry -/

theorem apply_callback {cfg : Config} {g : Registry} {call : Registration}
    (pages : g.callback = none) (other : ∀ callback, call ≠ .defaultREST (some callback)) :
    (call.apply cfg g).2.callback = none := by
  cases call with
  | addPage url content size type =>
      simp only [Registration.apply, addPage]
      split <;> exact pages
  | defaultPage url content size type =>
      simp only [Registration.apply, setDefaultPage]
      split <;> exact pages
  | eventsURL url =>
      simp only [Registration.apply, setEventsURL]
      split <;> exact pages
  | defaultREST callback =>
      cases callback with
      | none => simp [Registration.apply, defaultREST, pages]
      | some callback => exact absurd rfl (other callback)

theorem setUp_callback (cfg : Config) (boot : State) {calls : List Registration}
    (pages : ∀ callback, Registration.defaultREST (some callback) ∉ calls) :
    (boot.setUp cfg calls).registry.callback = none := by
  have keeps : ∀ g : Registry, g.callback = none → (g.registerAll cfg calls).callback = none := by
    induction calls with
    | nil => exact fun g none => none
    | cons call calls ih =>
        intro g none
        refine ih (fun callback member => pages callback (by simp [member])) _
          (apply_callback none fun callback same => pages callback (by simp [same]))
  exact keeps _ (@apply_callback cfg (boot.registry.clear cfg)
    (.addPage faviconPath (some (.ofBytes faviconIco))
    (UInt32.ofNat faviconIco.length) .imagePng) rfl (by simp))

/-! ## Isolation -/

theorem isolated_open {cfg : Config} (auth : cfg.auth = .none) {text : List UInt8}
    (whole : cutBeforeTarget text = false) : Isolated cfg text := by
  intro boot calls history history' s s' conn conn' t t' booted pages served served' delivers delivers'
    _ _ run run'
  have registry : s'.registry = s.registry :=
    (serves_registry served').trans (serves_registry served).symm
  have callback : s.registry.callback = none := by
    rw [serves_registry served]
    exact setUp_callback cfg boot pages
  cases token : requestMethod text with
  | none =>
      obtain ⟨u, silent, code, rfl⟩ := execute_refused auth delivers token run
      obtain ⟨u', silent', code', rfl⟩ := execute_refused auth delivers' token run'
      exact finish_same cfg silent silent' (code.trans code'.symm)
  | some pair =>
      obtain ⟨asked, wants, answers⟩ :=
        execute_asked auth delivers ⟨boot, calls, history, booted, served⟩ token run
      obtain ⟨asked', wants', answers'⟩ :=
        execute_asked auth delivers' ⟨boot, calls, history', booted, served'⟩ token run'
      exact answers_same wants wants' registry callback whole answers answers'

/-! ## Offers and verdicts -/

section Offers
variable {check : CheckAuth} {base : Mem} {offers : List (Option Offer)}
  {calls : List (Option AuthCall)}

theorem verdicts_get (check : CheckAuth) (calls : List (Option AuthCall)) (k : Nat) :
    (verdicts check calls)[k]? = calls[k]?.map fun call => call.map fun c => check k c.type c.cred := by
  simp [verdicts, verdictsFrom]

theorem offered_get (is : List.Forall₂ (Option.Rel (Offer.Is base)) offers calls) {k : Nat}
    {o : Option Offer} (found : offers[k]? = some o) :
    ∃ c, calls[k]? = some c ∧ Option.Rel (Offer.Is base) o c := by
  obtain ⟨inside, here⟩ := List.getElem?_eq_some_iff.mp found
  have inside' : k < calls.length := is.length_eq ▸ inside
  refine ⟨calls[k], List.getElem?_eq_getElem inside', ?_⟩
  rw [← here]
  exact is.get inside inside'

theorem admits_iff (is : List.Forall₂ (Option.Rel (Offer.Is base)) offers calls) :
    Admitted (verdicts check calls) ↔ offers ≠ [] ∧ ∀ k o, offers[k]? = some o →
      ∃ x c, o = some x ∧ Offer.Is base x c ∧ calls[k]? = some (some c) ∧
        check k c.type c.cred ≠ 0 := by
  have same : offers ≠ [] ↔ verdicts check calls ≠ [] := by
    rw [← List.length_pos_iff, ← List.length_pos_iff, is.length_eq, verdicts, length_verdictsFrom]
  rw [Admitted, same]
  refine and_congr_right fun _ => ⟨fun all k o found => ?_, fun all verdict member => ?_⟩
  · obtain ⟨c, called, rel⟩ := offered_get is found
    have told := verdicts_get check calls k
    rw [called, Option.map_some] at told
    obtain ⟨ret, verdict, nonzero⟩ := all _ (List.mem_of_getElem? told)
    obtain ⟨c, rfl, rfl⟩ := Option.map_eq_some_iff.mp verdict
    cases rel with
    | some here => exact ⟨_, c, rfl, here, called, nonzero⟩
  · obtain ⟨k, told⟩ := List.mem_iff_getElem?.mp member
    rw [verdicts_get] at told
    obtain ⟨call, called, told⟩ := Option.map_eq_some_iff.mp told
    have inside : k < offers.length := is.length_eq ▸ (List.getElem?_eq_some_iff.mp called).1
    obtain ⟨x, c, -, -, called', nonzero⟩ := all k _ (List.getElem?_eq_getElem inside)
    rw [called] at called'
    rw [Option.some.inj called'] at told
    exact ⟨_, told.symm, nonzero⟩

theorem hopeless_denied (is : List.Forall₂ (Option.Rel (Offer.Is base)) offers calls)
    (hopeless : Hopeless offers) : ¬ Admitted (verdicts check calls) := by
  rw [admits_iff is]
  rintro ⟨some, all⟩
  cases hopeless with
  | inl none => exact some none
  | inr unknown =>
      obtain ⟨k, found⟩ := List.mem_iff_getElem?.mp unknown
      obtain ⟨x, c, wrong, -⟩ := all k none found
      cases wrong

theorem told_admits (textual : Textual check) {base' : Mem} {calls' : List (Option AuthCall)}
    (told : ∀ o ∈ offers, o.all (fun offer => offer.text.isSome) = true)
    (is : List.Forall₂ (Option.Rel (Offer.Is base)) offers calls)
    (is' : List.Forall₂ (Option.Rel (Offer.Is base')) offers calls')
    (admits : Admitted (verdicts check calls)) : Admitted (verdicts check calls') := by
  rw [admits_iff is] at admits
  rw [admits_iff is']
  refine ⟨admits.1, fun k o found => ?_⟩
  obtain ⟨x, c, rfl, here, -, nonzero⟩ := admits.2 k o found
  obtain ⟨c', called, rel⟩ := offered_get is' found
  cases rel with
  | @some _ c' here' =>
      refine ⟨x, c', rfl, here', called, ?_⟩
      obtain ⟨w, text⟩ := Option.isSome_iff_exists.mp (told _ (List.mem_of_getElem? found))
      unfold Offer.Is at here here'
      rw [text] at here here'
      rw [here'.1, textual k x.type c'.cred c.cred fun n => by rw [here'.2.2 n, here.2.2 n], ← here.1]
      exact nonzero

end Offers

theorem isolated_settled {cfg : Config} (auth : cfg.auth ≠ .none) {text : List UInt8}
    (settled : SettledOffers cfg text) : Isolated cfg text := by
  intro boot calls history history' s s' conn conn' t t' booted pages served served' delivers delivers'
    same textual run run'
  have reachable : Reachable cfg s := ⟨boot, calls, history, booted, served⟩
  have reachable' : Reachable cfg s' := ⟨boot, calls, history', booted, served'⟩
  have registry : s'.registry = s.registry :=
    (serves_registry served').trans (serves_registry served).symm
  have callback : s.registry.callback = none := by
    rw [serves_registry served]
    exact setUp_callback cfg boot pages
  obtain ⟨made, checks, admitted, denied⟩ := execute_admitted auth delivers reachable run
  obtain ⟨made', checks', admitted', denied'⟩ := execute_admitted auth delivers' reachable' run'
  obtain ⟨k, j, is⟩ := checks_offers (s := s) auth delivers
    (accept_last reachable conn) checks
  obtain ⟨k', j', is'⟩ := checks_offers (s := s') auth delivers'
    (accept_last reachable' conn') checks'
  rw [same] at admitted' denied'
  have both : Admitted (verdicts conn.checkAuth made) ↔ Admitted (verdicts conn.checkAuth made') := by
    rcases settled with hopeless | ⟨pushed, told⟩
    · exact iff_of_false (hopeless_denied is (hopeless _)) (hopeless_denied is' (hopeless _))
    · have any (pushed' : Bool) : requestOffers cfg pushed' text = requestOffers cfg true text := by
        cases pushed' with
        | false => exact pushed.symm
        | true => rfl
      rw [any] at is is'
      exact ⟨told_admits (textual auth) told is is', told_admits (textual auth) told is' is⟩
  by_cases admits : Admitted (verdicts conn.checkAuth made)
  · obtain ⟨asked, wants, answers⟩ := admitted admits
    obtain ⟨asked', wants', answers'⟩ := admitted' (both.mp admits)
    have whole : cutBeforeTarget text = false := by
      by_contra cut
      rw [Bool.not_eq_false] at cut
      rw [requestOffers_cut cfg _ cut] at is
      exact hopeless_denied is (.inl rfl) admits
    exact answers_same wants wants' registry callback whole answers answers'
  · obtain ⟨code, bytes⟩ := denied admits
    obtain ⟨code', bytes'⟩ := denied' fun admits' => admits (both.mpr admits')
    exact ⟨code.trans code'.symm, bytes.trans bytes'.symm⟩

/-! ## What a cut request reveals -/

theorem respond_url {cfg : Config} {visit : Nat} {s u : State} (pages : s.registry.callback = none)
    (h : (respond cfg visit s).Returns u) : u.request.url = s.request.url := by
  cases respond_lasting h with
  | inl same => exact url_of_lasting same
  | inr cut =>
      rw [pages] at cut
      exact absurd cut.1 (by simp)

def markedPage : Registration := .defaultPage [97] (some fun _ => 0) 0 .textHtml

def markedRequest : RequestText where
  method := .get
  beforeTarget := [32]
  target := [97]
  beforeVersion := [32]
  version := httpVersion10
  afterVersion := []
  headers := []
  method_known := get_known
  beforeTarget_blank := space_blank
  target_plain := by decide
  beforeVersion_blank := space_blank
  version_plain := httpVersion10_plain
  afterVersion_blank := none_blanks

theorem marked_holds (cfg : Config) : (State.boot.setUp cfg [markedPage]).registry.Holds cfg
    (Site.init.registerAll cfg [markedPage]) :=
  registerAll_holds (by
    intro call member
    rw [List.mem_singleton] at member
    rw [member]
    exact ⟨by decide, rfl⟩) (init_holds cfg State.boot)

theorem marked_callback (cfg : Config) :
    (State.boot.setUp cfg [markedPage]).registry.callback = none :=
  setUp_callback cfg State.boot (by simp [markedPage])

theorem execute_marked {cfg : Config} (auth : cfg.auth = .none) {s : State}
    (h : (execute cfg (.ofBytes markedRequest.render)
      (State.boot.setUp cfg [markedPage])).Returns s) (n : Nat) :
    s.request.url.cstr n = [97].take n := by
  have size := cfg.url_ge
  obtain ⟨r', parse, -⟩ := parseRequest_text auth (Connection.ofBytes markedRequest.render).checkAuth
    markedRequest
    (show ((State.boot.setUp cfg [markedPage]).accept cfg
      (.ofBytes markedRequest.render)).reader.pending = _ from
        (List.append_nil (sends markedRequest.render)).symm)
    (show ((State.boot.setUp cfg [markedPage]).accept cfg
      (.ofBytes markedRequest.render)).request.returnCode = statusUnknown from rfl) rfl
    isBlank_zero
  obtain ⟨u, answer, h⟩ := returns_bind.mp (parse.bind_iff.mp h)
  rw [returns_pure] at h
  rw [h, url_of_lasting (finish_lasting cfg u), respond_url (by exact marked_callback cfg) answer]
  exact (result_path (show 63 ∉ markedRequest.target by decide) (show 1 < cfg.urlBufferSize by omega)).cstr n

theorem ofBytes_offers (text : List UInt8) : (Connection.ofBytes text).Offers text := ⟨rfl, rfl⟩

theorem execute_cut {cfg : Config} (auth : cfg.auth = .none) {s t : State} (reachable : Reachable cfg s)
    {text : List UInt8} (cut : cutBeforeTarget text = true)
    (run : (execute cfg (.ofBytes text) s).Returns t) : ∃ asked : State,
      asked.request.url = s.request.url ∧ asked.request.urlLen = 0 ∧ asked.registry = s.registry ∧
      Answers cfg (asked.route cfg) asked.request.method t := by
  cases token : requestMethod text with
  | none => simp [cutBeforeTarget, token] at cut
  | some pair =>
      obtain ⟨asked, wants, answers⟩ := execute_asked auth (ofBytes_offers text) reachable token run
      obtain ⟨m, rest, q, token', lined, wanted⟩ := wants.wanted
      obtain ⟨url, len⟩ := lined.cut ((cutBeforeTarget_iff token').mp cut)
      exact ⟨asked, (congrArg Wanted.url wanted).trans url, (congrArg Wanted.urlLen wanted).trans len,
        wants.registry, answers⟩

theorem agrees_nil {cfg : Config} {e : Entry} (named : e.url ≠ []) : e.agrees cfg [] = false := by
  have size := cfg.pageUrl_pos
  obtain ⟨b, url, named⟩ := List.exists_cons_of_ne_nil named
  obtain ⟨n, rest⟩ : ∃ n, cfg.pageUrlSize = n + 1 := ⟨cfg.pageUrlSize - 1, by omega⟩
  simp [Entry.agrees, named, rest]

theorem route_unnamed {cfg : Config} {s : State}
    (holds : s.registry.Holds cfg (Site.init.registerAll cfg [markedPage]))
    (url : ∀ n, s.request.url.cstr n = []) (len : s.request.urlLen = 0) :
    s.route cfg = .notFound := by
  have cells : ∀ n, s.request.url.cstr n = ([] : List UInt8).take n := by
    intro n
    rw [url, List.take_nil]
  have table := findTable_is cells holds
  have icon : ((Site.init.registerAll cfg [markedPage]).pages.find? fun e => e.agrees cfg []) =
      none := by
    rw [List.find?_eq_none]
    intro e member
    have only : e = ⟨faviconPath, .ofBytes faviconIco, UInt32.ofNat faviconIco.length, .imagePng⟩ :=
      List.mem_singleton.mp member
    rw [only, agrees_nil (show faviconPath ≠ [] by decide)]
    decide
  have entry : findPageEntry cfg s.request s.registry = none := by
    have page : checkPage cfg s.request s.registry.defaultPage = false := by
      rw [checkPage_is cells (holds.defaultPage _ rfl)]
      exact agrees_nil (show ([97] : List UInt8) ≠ [] by decide)
    have root : isDefaultPath cfg s.request s.registry = false := by simp [isDefaultPath, len]
    rw [findPageEntry, page, root, Bool.or_self, if_neg (by decide)]
    split at table
    · obtain ⟨e, found, -⟩ := table
      rw [icon] at found
      cases found
    · rename_i missing
      exact missing
  have events : isEventsPath cfg s.request s.registry = false := by
    have first := holds.events 1
    rw [Mem.cstr] at first
    have zero : s.registry.eventsPage 0 = 0 := by
      by_contra used
      rw [if_neg used] at first
      cases first
    simp [isEventsPath, zero]
  have callback : s.registry.callback = none := holds.callback
  simp only [State.route, entry, events, callback, Bool.false_eq_true, if_false]

theorem route_marked {cfg : Config} {s t : State} {m : HttpMethod}
    (holds : s.registry.Holds cfg (Site.init.registerAll cfg [markedPage]))
    (url : ∀ n, s.request.url.cstr n = [97].take n) (answers : Answers cfg (s.route cfg) m t) :
    t.request.returnCode = statusOk ∨ t.request.returnCode = statusUnsupported := by
  have entry : findPageEntry cfg s.request s.registry = some s.registry.defaultPage := by
    have page : checkPage cfg s.request s.registry.defaultPage = true := by
      rw [checkPage_is url (holds.defaultPage _ rfl)]
      exact beq_self_eq_true _
    rw [findPageEntry, page, Bool.or_true, if_pos rfl]
  rw [State.route, entry] at answers
  dsimp only at answers
  split at answers
  · exact .inl (answers.response _ _ rfl).1
  · exact .inr (answers.response _ _ rfl).1

theorem cut_reveals {cfg : Config} (auth : cfg.auth = .none) {text : List UInt8}
    (cut : cutBeforeTarget text = true) : ¬ Isolated cfg text := by
  intro isolated
  obtain ⟨s, first⟩ := execute_total cfg (.ofBytes markedRequest.render)
    (State.boot.setUp cfg [markedPage]) rfl
  obtain ⟨t, fresh⟩ := execute_total cfg (.ofBytes text) (State.boot.setUp cfg [markedPage]) rfl
  obtain ⟨t', stale⟩ := execute_total cfg (.ofBytes text) s rfl
  have runs : Serves cfg (State.boot.setUp cfg [markedPage]) [.ofBytes markedRequest.render] s :=
    .cons first (.nil _)
  have same := (isolated State.boot [markedPage] [] _ _ s (.ofBytes text) (.ofBytes text) t t'
    (fun _ _ => rfl) (by simp [markedPage]) (.nil _) runs (ofBytes_offers text) (ofBytes_offers text) rfl
    (fun gate => absurd auth gate) fresh stale).1
  have holds := marked_holds cfg
  -- With an empty buffer nothing is found,
  have missing : t.request.returnCode = statusNotFound := by
    obtain ⟨asked, url, len, registry, answers⟩ :=
      execute_cut auth ⟨State.boot, [markedPage], [], fun _ _ => rfl, .nil _⟩ cut fresh
    rw [← registry] at holds
    rw [route_unnamed holds (fun n => by rw [url]; cases n <;> rfl) len] at answers
    exact (answers.response _ _ rfl).1
  -- and with the first target the page is.
  have found : t'.request.returnCode = statusOk ∨ t'.request.returnCode = statusUnsupported := by
    obtain ⟨asked, url, len, registry, answers⟩ :=
      execute_cut auth ⟨State.boot, [markedPage], _, fun _ _ => rfl, runs⟩ cut stale
    rw [← serves_registry runs, ← registry] at holds
    exact route_marked holds (fun n => by rw [url]; exact execute_marked auth first n) answers
  rw [← same, missing] at found
  rcases found with wrong | wrong
  · exact absurd wrong (by decide)
  · exact absurd wrong (by decide)

/-! ## What the memory reveals -/

def Offer.seen (b : UInt8) (o : Offer) (n : Nat) : List UInt8 :=
  match o.text with
  | some text => text.take n
  | none => List.replicate n b

theorem cstr_everywhere {b : UInt8} (nonzero : b ≠ 0) (n : Nat) :
    Mem.cstr n (fun _ => b) = List.replicate n b := by
  induction n with
  | zero => rfl
  | succ n ih =>
      rw [Mem.cstr, if_neg nonzero, show Mem.skip (fun _ => b) 1 = fun _ => b from rfl, ih]
      rfl

theorem Offer.Is.cstr {b : UInt8} (nonzero : b ≠ 0) {o : Offer} {c : AuthCall}
    (is : o.Is (fun _ => b) c) (n : Nat) : c.cred.cstr n = o.seen b n := by
  obtain ⟨t, w⟩ := o
  obtain ⟨-, text⟩ := is
  cases w with
  | some w => exact text.2 n
  | none =>
      obtain ⟨start, place⟩ := text
      rw [place]
      exact cstr_everywhere nonzero n

theorem seen_told {b b' : UInt8} (differ : b ≠ b') {x y : Offer} (type : x.type = y.type)
    (same : ∀ n, x.seen b n = y.seen b' n) : x = y ∧ x.text.isSome = true := by
  obtain ⟨t, w⟩ := x
  obtain ⟨t', w'⟩ := y
  obtain rfl : t = t' := type
  unfold Offer.seen at same
  cases w with
  | none =>
      cases w' with
      | none =>
          have first := same 1
          exact absurd (List.cons.inj first).1 differ
      | some w' =>
          have length := congrArg List.length (same (w'.length + 1))
          simp at length
  | some w =>
      cases w' with
      | none =>
          have length := congrArg List.length (same (w.length + 1))
          simp at length
      | some w' =>
          have whole := same (w.length + w'.length)
          dsimp only at whole
          rw [List.take_of_length_le (by omega), List.take_of_length_le (by omega)] at whole
          rw [whole]
          exact ⟨rfl, rfl⟩

/-- The checker that accepts what is offered in a memory of this byte, and nothing else. -/
noncomputable def only (b : UInt8) (offers : List (Option Offer)) : CheckAuth := fun k t cred =>
  @ite _ (∃ o, offers[k]? = some (some o) ∧ t = o.type ∧ ∀ n, cred.cstr n = o.seen b n)
    (Classical.propDecidable _) 1 0

theorem only_accepts {b : UInt8} {offers : List (Option Offer)} {k : Nat} {t : AuthType} {cred : Mem} :
    only b offers k t cred ≠ 0 ↔
      ∃ o, offers[k]? = some (some o) ∧ t = o.type ∧ ∀ n, cred.cstr n = o.seen b n := by
  unfold only
  split
  · rename_i accepted
    exact iff_of_true (by decide) accepted
  · rename_i refused
    exact iff_of_false (by simp) refused

theorem only_textual (b : UInt8) (offers : List (Option Offer)) : Textual (only b offers) := by
  intro k t m m' same
  have cells : (∃ o, offers[k]? = some (some o) ∧ t = o.type ∧ ∀ n, m.cstr n = o.seen b n) =
      ∃ o, offers[k]? = some (some o) ∧ t = o.type ∧ ∀ n, m'.cstr n = o.seen b n := by
    simp only [same]
  unfold only
  congr

def stacked (check : CheckAuth) (b : UInt8) (text : List UInt8) : Connection :=
  { Connection.ofBytes text with checkAuth := check, readStack := fun _ _ => b }

section Stacked
variable {cfg : Config} {text : List UInt8}

def offersAt (cfg : Config) (text : List UInt8) (b : UInt8) : List (Option Offer) :=
  requestOffers cfg (decide (b = 10)) text

theorem stacked_admitted (auth : cfg.auth ≠ .none) (check : CheckAuth) (b : UInt8) (text : List UInt8) :
    ∃ t calls, (execute cfg (stacked check b text) (State.boot.setUp cfg [])).Returns t ∧
      List.Forall₂ (Option.Rel (Offer.Is fun _ => b)) (offersAt cfg text b) calls ∧
      (t.request.returnCode = statusUnauthorized ↔ ¬ Admitted (verdicts check calls)) := by
  have reachable : Reachable cfg (State.boot.setUp cfg []) := ⟨State.boot, [], [], fun _ _ => rfl, .nil _⟩
  have delivers : (stacked check b text).Offers text := ⟨rfl, rfl⟩
  obtain ⟨t, run⟩ := execute_total cfg (stacked check b text) (State.boot.setUp cfg []) rfl
  obtain ⟨calls, checks, admitted, denied⟩ := execute_admitted auth delivers reachable run
  obtain ⟨k, j, is⟩ := checks_offers (s := State.boot.setUp cfg []) auth delivers
    (accept_last reachable (stacked check b text)) checks
  refine ⟨t, calls, run, is, fun code admits => ?_, fun denies => (denied denies).1⟩
  obtain ⟨asked, wants, answers⟩ := admitted admits
  have pages : asked.registry.callback = none := by
    rw [wants.registry]
    exact setUp_callback cfg State.boot (by simp)
  obtain ⟨reported, bytes, response, known⟩ := @route_response cfg asked pages
  exact known ((answers.response _ _ response).1.symm.trans code)

theorem isolated_agrees (auth : cfg.auth ≠ .none) (isolated : Isolated cfg text) {b b' : UInt8}
    (nonzero : b ≠ 0) (nonzero' : b' ≠ 0) (hope : ¬ Hopeless (offersAt cfg text b)) :
    ¬ Hopeless (offersAt cfg text b') ∧ ∀ (k : Nat) o, (offersAt cfg text b')[k]? = some o →
      ∃ x y : Offer, o = some x ∧ (offersAt cfg text b)[k]? = some (some y) ∧ x.type = y.type ∧
        ∀ n, x.seen b' n = y.seen b n := by
  let check : CheckAuth := only b (offersAt cfg text b)
  obtain ⟨t, calls, run, is, code⟩ := stacked_admitted auth check b text
  obtain ⟨t', calls', run', is', code'⟩ := stacked_admitted auth check b' text
  have same := (isolated State.boot [] [] [] _ _ (stacked check b text) (stacked check b' text) t t'
    (fun _ _ => rfl) (by simp) (.nil _) (.nil _) ⟨rfl, rfl⟩ ⟨rfl, rfl⟩ rfl
    (fun _ => only_textual _ _) run run').1
  have admits : Admitted (verdicts check calls) := by
    refine (admits_iff is).mpr ⟨fun none => hope (.inl none), fun k o found => ?_⟩
    obtain ⟨c, called, rel⟩ := offered_get is found
    cases rel with
    | none => exact absurd (.inr (List.mem_of_getElem? found)) hope
    | @some x c here =>
        exact ⟨x, c, rfl, here, called, only_accepts.mpr ⟨x, found, here.1, here.cstr nonzero⟩⟩
  have admits' : Admitted (verdicts check calls') := by
    by_contra denies
    rw [code'.mpr denies] at same
    exact code.mp same admits
  refine ⟨fun hopeless => hopeless_denied is' hopeless admits', fun k o found => ?_⟩
  obtain ⟨x, c, rfl, here, -, accepted⟩ := ((admits_iff is').mp admits').2 k o found
  obtain ⟨y, offered, type, cells⟩ := only_accepts.mp accepted
  exact ⟨x, y, rfl, offered, here.1.symm.trans type,
    fun n => (here.cstr nonzero' n).symm.trans (cells n)⟩

theorem isolated_told (auth : cfg.auth ≠ .none) (isolated : Isolated cfg text) {b b' : UInt8}
    (nonzero : b ≠ 0) (nonzero' : b' ≠ 0) (differ : b' ≠ b) (hope : ¬ Hopeless (offersAt cfg text b)) :
    offersAt cfg text b' = offersAt cfg text b ∧
      ∀ o ∈ offersAt cfg text b', o.all (fun offer => offer.text.isSome) = true := by
  obtain ⟨hope', within⟩ := isolated_agrees auth isolated nonzero nonzero' hope
  obtain ⟨-, within'⟩ := isolated_agrees auth isolated nonzero' nonzero hope'
  have each {k : Nat} {o : Option Offer} (found : (offersAt cfg text b')[k]? = some o) :
      (offersAt cfg text b)[k]? = some o ∧ o.all (fun offer => offer.text.isSome) = true := by
    obtain ⟨x, y, rfl, offered, type, same⟩ := within k o found
    obtain ⟨rfl, told⟩ := seen_told differ type same
    exact ⟨offered, told⟩
  refine ⟨List.ext_getElem? fun k => ?_, fun o member => ?_⟩
  · cases found : (offersAt cfg text b')[k]? with
    | some o => exact (each found).1.symm
    | none =>
        cases offered : (offersAt cfg text b)[k]? with
        | none => rfl
        | some o =>
            obtain ⟨x, y, -, found', -⟩ := within' k o offered
            rw [found] at found'
            cases found'
  · obtain ⟨k, found⟩ := List.mem_iff_getElem?.mp member
    exact (each found).2

theorem settled_of_isolated (auth : cfg.auth ≠ .none) (isolated : Isolated cfg text) :
    SettledOffers cfg text := by
  by_cases hopeless : ∀ pushed, Hopeless (requestOffers cfg pushed text)
  · exact .inl hopeless
  · right
    obtain ⟨pushed, hope⟩ := not_forall.mp hopeless
    cases pushed with
    | true =>
        obtain ⟨same, told⟩ := @isolated_told cfg text auth isolated 10 97 (by decide) (by decide)
          (by decide) hope
        refine ⟨same.symm, fun o member => ?_⟩
        have there : o ∈ offersAt cfg text 10 := member
        exact told o (by rwa [same])
    | false =>
        exact @isolated_told cfg text auth isolated 97 10 (by decide) (by decide) (by decide) hope

end Stacked

/-- A text is answered alike after every history exactly when it does not break off before its target
or the build has authorization, and in such a build the request brings the credentials that it offers
or has no hope. -/
theorem isolated_iff (cfg : Config) (text : List UInt8) : Isolated cfg text ↔
    (cfg.auth = .none → cutBeforeTarget text = false) ∧
      (cfg.auth ≠ .none → SettledOffers cfg text) := by
  constructor
  · refine fun isolated => ⟨fun auth => ?_, fun auth => settled_of_isolated auth isolated⟩
    by_contra cut
    rw [Bool.not_eq_false] at cut
    exact cut_reveals auth cut isolated
  · rintro ⟨whole, settled⟩
    by_cases auth : cfg.auth = .none
    · exact isolated_open auth (whole auth)
    · exact isolated_settled auth (settled auth)

theorem icon_revealed :
    ∃ s t t', (execute (.default .none) (.ofBytes (ascii "GET /favicon.ico HTTP/1.0\r\n\r\n"))
        (State.boot.setUp (.default .none) [])).Returns s ∧
      (execute (.default .none) (.ofBytes (ascii "GET"))
        (State.boot.setUp (.default .none) [])).Returns t ∧
      (execute (.default .none) (.ofBytes (ascii "GET")) s).Returns t' ∧
      t.request.returnCode = 404 ∧ t'.request.returnCode = 200 := by
  obtain ⟨p, run, codes⟩ := returns_of_run (n := 100)
    (x := do
      let s ← execute (.default .none) (.ofBytes (ascii "GET /favicon.ico HTTP/1.0\r\n\r\n"))
        (State.boot.setUp (.default .none) [])
      let t ← execute (.default .none) (.ofBytes (ascii "GET"))
        (State.boot.setUp (.default .none) [])
      let t' ← execute (.default .none) (.ofBytes (ascii "GET")) s
      pure (s, t, t'))
    (f := fun p : State × State × State => (p.2.1.request.returnCode, p.2.2.request.returnCode))
    (b := (404, 200)) (by decide +kernel)
  obtain ⟨s, first, run⟩ := returns_bind.mp run
  obtain ⟨t, fresh, run⟩ := returns_bind.mp run
  obtain ⟨t', stale, run⟩ := returns_bind.mp run
  rw [returns_pure] at run
  rw [run] at codes
  obtain ⟨missing, found⟩ := Prod.mk.inj codes
  exact ⟨s, t, t', first, fresh, stale, missing, found⟩

end AttoHTTP
