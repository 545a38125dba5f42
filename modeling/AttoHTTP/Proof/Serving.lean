import Mathlib.Data.Nat.Digits.Defs
import AttoHTTP.Proof.Levels

namespace AttoHTTP
open Library Comp

inductive Service
  | content
  | eventStream
  | callback (method : HttpMethod)

def Event.service? : Event → Option Service
  | .pageContent => some .content
  | .eventStream => some .eventStream
  | .callback args => some (.callback args.method)
  | _ => none

def Route.service (method : HttpMethod) : Route → Option Service
  | .page .. => some .content
  | .events => some .eventStream
  | .callback _ => some (.callback method)
  | _ => none

def headerText (cfg : Config) (type : MimeType) (size : UInt32) : List UInt8 :=
  contentTypeLine type.name ++ (if 0 < size then contentLengthLine size else []) ++
    (if cfg.gzipPages then gzipLine else []) ++ httpEol

def eventsText : List UInt8 :=
  ascii "Content-Type: " ++ MimeType.textEventStream.name ++ httpEol ++
    (ascii "Cache-Control: no-cache" ++ httpEol) ++ httpEol

/-- The code returned and the bytes written, where the callback has no say in them. -/
def Route.response (cfg : Config) : Route → Option (ReturnCode × List UInt8)
  | .page content size type => some (statusOk, statusLineText 200 (ascii "OK") ++
      (headerText cfg type size ++ content.bytes size.toNat))
  | .unsupported => some (statusUnsupported, statusLineText 501 (ascii "Not Implemented"))
  | .events => some (statusServerSentEvents, statusLineText 200 (ascii "OK") ++ eventsText)
  | .callback _ => none
  | .noLevel => some (statusInternalError, statusLineText 500 (ascii "Internal Error"))
  | .notFound => some (statusNotFound, statusLineText 404 (ascii "Not Found"))

structure Answers (cfg : Config) (route : Route) (method : HttpMethod) (t : State) : Prop where
  service : t.writer.trace.filterMap Event.service? = (route.service method).toList
  response : ∀ code bytes, route.response cfg = some (code, bytes) →
    t.request.returnCode = code ∧ t.written = bytes

/-! ## What is written -/

theorem decimalInt_short (n : UInt32) : (decimalInt n).length ≤ 11 := by
  have digits (k : Nat) (small : k < 10 ^ 10) : (decimal k).length ≤ 10 := by
    rw [decimal, List.length_map]
    exact Nat.toDigits_length 10 k 10 (by decide) small
  have bound := n.toNat_lt
  unfold decimalInt
  split
  · have := digits n.toNat (by omega)
    omega
  · have := digits (2 ^ 32 - n.toNat) (by omega)
    rw [List.length_cons]
    omega

theorem contentLengthLine_short (size : UInt32) : (contentLengthLine size).length < 128 := by
  have digits := decimalInt_short size
  have name : (ascii "Content-Length: ").length = 16 := rfl
  have eol : httpEol.length = 2 := rfl
  simp only [contentLengthLine, List.length_append, name, eol]
  omega

theorem sendHeaders_emits {cfg : Config} {s : State}
    (unsent : (ensureFirstLine cfg s.request.returnCode.toUInt16 s).writer.headersSent = false) :
    (ensureFirstLine cfg s.request.returnCode.toUInt16 s).headersSent.Emits
      (.headerBlock :: wire (headerText cfg
        (ensureFirstLine cfg s.request.returnCode.toUInt16 s).request.contenttype
        (ensureFirstLine cfg s.request.returnCode.toUInt16 s).request.contentlength))
      (sendHeaders cfg s).state := by
  simp only [sendHeaders, unsent, Bool.false_eq_true, if_false, headerText, wire_append]
  generalize ensureFirstLine cfg s.request.returnCode.toUInt16 s = t
  have type := (t.mark_emits .headerBlock).trans
    (@State.printf_fits cfg _ _ (contentTypeLine_short t.request.contenttype))
  have size (n : UInt32) (u : State) : u.Emits (wire (if 0 < n then contentLengthLine n else []))
      (if 0 < n then u.printf cfg (contentLengthLine n) else ⟨0, u⟩).state := by
    split
    · exact State.printf_fits _ (contentLengthLine_short _)
    · exact State.Emits.refl _
  have gzip (u : State) : u.Emits (wire (if cfg.gzipPages then gzipLine else []))
      (if cfg.gzipPages then u.print gzipLine else ⟨0, u⟩).state := by
    split
    · exact State.print_emits _ _
    · exact State.Emits.refl _
  have whole := (((type.trans (size t.request.contentlength _)).trans (gzip _)).trans
    (State.print_emits _ httpEol)).headersSent
  rw [List.singleton_append, List.cons_append, List.cons_append, List.cons_append] at whole
  exact whole

theorem services_head {events : List Event} (head : ∀ e ∈ events, e.isHead) :
    events.filterMap Event.service? = [] := by
  apply List.filterMap_eq_nil_iff.mpr
  intro e member
  have part := head e member
  cases e <;> simp_all [Event.isHead, Event.service?]

theorem statusLine_events {code : UInt16} {phrase : List UInt8}
    (known : (reasonPhrase code).getD (ascii "Internal Error") = phrase) :
    (statusLineEvents code).filterMap Event.byte? = statusLineText code phrase := by
  rw [statusLineEvents, known, List.filterMap_cons]
  exact written_wire _

theorem firstLine_trace (cfg : Config) (code : UInt16) {s : State} (silent : s.Silent) :
    (firstLine cfg code s).state.writer.trace = statusLineEvents (lineCode code) := by
  rw [(firstLine_fresh cfg code silent.firstlineSent).writer.trace]
  exact (congrArg (· ++ _) silent.trace).trans (List.nil_append _)

theorem sendHeaders_fresh {cfg : Config} {s : State} (silent : s.Silent)
    (ok : s.request.returnCode = statusOk) :
    (sendHeaders cfg s).state.writer.trace = statusLineEvents 200 ++
        .headerBlock :: wire (headerText cfg s.request.contenttype s.request.contentlength) ∧
      (sendHeaders cfg s).state.writer.firstlineSent = true ∧
      (sendHeaders cfg s).state.request = s.request := by
  have line := firstLine_fresh cfg statusOk.toUInt16 silent.firstlineSent
  have known := answered_known (firstLine_answered cfg statusOk.toUInt16 s) (by decide)
  rw [← ensureFirstLine_eq] at line known
  have unsent : (ensureFirstLine cfg s.request.returnCode.toUInt16 s).writer.headersSent = false := by
    rw [ok, line.writer.headersSent]
    exact silent.headersSent
  have block := sendHeaders_emits unsent
  rw [ok, known] at block
  refine ⟨?_, ?_, block.request.trans known⟩
  · have first : (ensureFirstLine cfg statusOk.toUInt16 s).writer.trace = statusLineEvents 200 := by
      rw [ensureFirstLine_eq]
      exact firstLine_trace cfg statusOk.toUInt16 silent
    rw [block.writer.trace, ← first]
    rfl
  · rw [block.writer.firstlineSent]
    exact line.writer.firstlineSent

theorem finish_sent (cfg : Config) {s : State} (sent : s.writer.firstlineSent = true)
    (authorized : s.request.returnCode ≠ statusUnauthorized) : finish cfg s = s := by
  rw [finish, if_neg authorized]
  split <;> exact firstLine_sent cfg _ sent

def State.offering (p : Page) (s : State) : State :=
  { s with
    request := { s.request with
      returnCode := statusOk, contenttype := p.type, contentlength := p.size } }

theorem sendPage_emits (cfg : Config) (p : Page) (s : State) :
    (sendHeaders cfg (s.offering p)).state.Emits
      (.pageContent :: wire ((p.content.getD fun _ => 0).bytes p.size.toNat)) (sendPage cfg p s) :=
  (State.mark_emits (sendHeaders cfg (s.offering p)).state .pageContent).trans
    (State.write_emits _ ((p.content.getD fun _ => 0).bytes p.size.toNat))

theorem sendPage_answers (cfg : Config) (p : Page) {s : State} (silent : s.Silent)
    (method : HttpMethod) :
    Answers cfg (.page (p.content.getD fun _ => 0) p.size p.type) method
        (finish cfg (sendPage cfg p s)) ∧
      (sendPage cfg p s).request.returnCode = statusOk := by
  obtain ⟨trace, sent, request⟩ :=
    @sendHeaders_fresh cfg (s.offering p) ⟨silent.headersSent, silent.firstlineSent, silent.trace⟩ rfl
  have emits := sendPage_emits cfg p s
  have code : (sendPage cfg p s).request.returnCode = statusOk := by
    rw [emits.request, request]
    rfl
  have whole := emits.writer.trace
  rw [trace] at whole
  rw [finish_sent cfg (emits.writer.firstlineSent.trans sent) (by rw [code]; decide)]
  refine ⟨⟨?_, ?_⟩, code⟩
  · rw [whole]
    simp [List.filterMap_cons, services_head (statusLineEvents_head _), services_head (wire_head _),
      Event.service?, Route.service]
  · intro code' bytes response
    simp only [Route.response, Option.some.injEq, Prod.mk.injEq] at response
    refine ⟨code.trans response.1, ?_⟩
    have phrase : (reasonPhrase 200).getD (ascii "Internal Error") = ascii "OK" := by decide
    rw [State.written, whole, ← response.2]
    simp [List.filterMap_cons, statusLine_events phrase, written_wire, Event.byte?, State.offering]

theorem eventHeaders_answers (cfg : Config) {s : State} (silent : s.Silent) (method : HttpMethod) :
    Answers cfg .events method (finish cfg (sendServerSentEventHeaders cfg s).state) ∧
      (sendServerSentEventHeaders cfg s).state.request.returnCode = statusServerSentEvents := by
  have line := firstLine_fresh cfg statusOk.toUInt16 silent.firstlineSent
  have block := (((State.mark_emits (firstLine cfg statusOk.toUInt16 s).state .eventStream).trans
    (State.mark_emits _ .headerBlock)).trans
      ((@State.printf_fits cfg _ _
        (show (ascii "Content-Type: " ++ MimeType.textEventStream.name ++ httpEol).length < 128 by
          decide)).trans (State.print_emits _ (ascii "Cache-Control: no-cache" ++ httpEol)))).trans
      (State.print_emits _ httpEol)
  have whole : (sendServerSentEventHeaders cfg s).state.writer.trace = statusLineEvents 200 ++
      (.eventStream :: .headerBlock :: wire eventsText) := by
    rw [show statusLineEvents 200 = _ from (firstLine_trace cfg statusOk.toUInt16 silent).symm]
    refine block.writer.trace.trans ?_
    simp only [eventsText, wire_append, List.append_assoc, List.cons_append, List.nil_append]
  have sent : (sendServerSentEventHeaders cfg s).state.writer.firstlineSent = true :=
    block.writer.firstlineSent.trans line.writer.firstlineSent
  rw [finish_sent cfg sent (show statusServerSentEvents ≠ statusUnauthorized by decide)]
  refine ⟨⟨?_, ?_⟩, rfl⟩
  · rw [whole]
    simp [List.filterMap_cons, services_head (statusLineEvents_head _), services_head (wire_head _),
      Event.service?, Route.service]
  · intro code bytes response
    simp only [Route.response, Option.some.injEq, Prod.mk.injEq] at response
    refine ⟨response.1, ?_⟩
    have phrase : (reasonPhrase 200).getD (ascii "Internal Error") = ascii "OK" := by decide
    rw [State.written, whole, ← response.2]
    simp [List.filterMap_cons, statusLine_events phrase, written_wire, Event.byte?]

theorem finish_silent (cfg : Config) {s : State} (silent : s.Silent) {code : ReturnCode}
    {line : UInt16} {phrase : List UInt8} (reported : s.request.returnCode = code)
    (authorized : code ≠ statusUnauthorized) (events : code ≠ statusServerSentEvents)
    (number : lineCode code.toUInt16 = line)
    (text : (reasonPhrase line).getD (ascii "Internal Error") = phrase)
    (kept : reasonPhrase code.toUInt16 = none → code = statusInternalError) :
    (finish cfg s).writer.trace.filterMap Event.service? = [] ∧
      (finish cfg s).request.returnCode = code ∧
      (finish cfg s).written = statusLineText line phrase := by
  rw [finish, reported, if_neg authorized, if_neg events]
  have emits := firstLine_fresh cfg code.toUInt16 silent.firstlineSent
  rw [State.written, firstLine_trace cfg code.toUInt16 silent, number, emits.request]
  refine ⟨services_head (statusLineEvents_head _), ?_, statusLine_events text⟩
  change (s.request.afterLine false code.toUInt16).returnCode = code
  rw [Request.afterLine]
  split
  · exact reported
  · rename_i unknown
    rw [Bool.false_or, Option.not_isSome_iff_eq_none] at unknown
    exact (kept unknown).symm

/-! ## The callback -/

theorem handle_service {cfg : Config} {op : ApiCall} {s : State} {p : op.Reply × State}
    (h : (handle cfg op s).Returns p) :
    p.2.writer.trace.filterMap Event.service? = s.writer.trace.filterMap Event.service? := by
  have marked : (s.mark (.call op)).writer.trace.filterMap Event.service? =
      s.writer.trace.filterMap Event.service? := by
    simp [State.mark, Writer.mark, List.filterMap_append, Event.service?]
  rw [← marked]
  cases apply_returns h with
  | inl answer =>
      obtain ⟨_, _, _, answered, _⟩ := answer
      obtain ⟨events, trace, head⟩ := answered.trace
      rw [trace, List.filterMap_append, services_head head, List.append_nil]
  | inr plain =>
      obtain ⟨_, ⟨bytes, adds⟩, _, _⟩ := plain
      rw [adds.trace, List.filterMap_append, services_head (wire_head bytes), List.append_nil]

theorem runCallback_service {cfg : Config} {callback : Callback} {visit : Nat}
    {args : CallbackArgs} {s t : State} (silent : s.Silent)
    (h : (runCallback cfg callback visit args s).Returns t) :
    t.writer.trace.filterMap Event.service? = [.callback args.method] := by
  obtain ⟨p, run, h⟩ := returns_bind.mp h
  rw [returns_pure] at h
  have calls : p.2.writer.trace.filterMap Event.service? = [.callback args.method] := by
    refine Script.run_invariant
      (fun t => t.writer.trace.filterMap Event.service? = [.callback args.method]) ?_ run ?_
    · intro op u q same call
      exact (handle_service call).trans same
    · simp [State.mark, Writer.mark, silent.trace, Event.service?]
  rw [h]
  simp [State.mark, Writer.mark, List.filterMap_append, calls, Event.service?]

theorem finish_service (cfg : Config) (s : State) :
    (finish cfg s).writer.trace.filterMap Event.service? =
      s.writer.trace.filterMap Event.service? := by
  obtain ⟨code, answered, -⟩ := finish_answered cfg s
  obtain ⟨events, trace, head⟩ := answered.trace
  rw [trace, List.filterMap_append, services_head head, List.append_nil]

/-! ## The routes -/

theorem finds_answers {cfg : Config} {visit : Nat} {s : State} (silent : s.Silent)
    (unsent : s.request.returnCode = statusNotFound) {f : Found} (find : Finds cfg visit s f) :
    Answers cfg (s.route cfg) s.request.method (finish cfg f.settled) := by
  have known {t : State} {code : ReturnCode} {ret : Int8} (reported : t.request.returnCode = code)
      (other : code ≠ statusUnknown) : (Found.mk ret t).settled = t := by
    have no : ¬ (0 < ret ∧ t.request.returnCode = statusUnknown) := fun both =>
      other (reported.symm.trans both.2)
    unfold Found.settled
    dsimp only
    rw [if_neg no, if_neg (fun unknown => other (reported.symm.trans unknown))]
  have quiet {t : State} (code : ReturnCode) (same : t.writer = s.writer) :
      (t.setReturnCode code).Silent := by
    refine ⟨?_, ?_, ?_⟩ <;> simp only [State.setReturnCode, same]
    · exact silent.headersSent
    · exact silent.firstlineSent
    · exact silent.trace
  have refuse {t : State} {route : Route} {code : ReturnCode} {bytes : List UInt8}
      (none : route.service s.request.method = none)
      (response : route.response cfg = some (code, bytes))
      (said : t.writer.trace.filterMap Event.service? = [] ∧ t.request.returnCode = code ∧
        t.written = bytes) : Answers cfg route s.request.method t := by
    refine ⟨by rw [said.1, none]; rfl, fun code' bytes' asked => ?_⟩
    obtain ⟨rfl, rfl⟩ := Prod.mk.inj (Option.some.inj (response.symm.trans asked))
    exact said.2
  unfold State.route
  cases find with
  | @page p entry get =>
      obtain ⟨answers, code⟩ := sendPage_answers cfg p silent s.request.method
      simp only [entry, if_pos get]
      rw [known code (by decide)]
      exact answers
  | @unsupported p entry other =>
      simp only [entry, if_neg other]
      rw [known (show _ = statusUnsupported from rfl) (by decide)]
      exact refuse rfl rfl (finish_silent cfg (quiet _ rfl) rfl (by decide) (by decide) (by decide)
        (by decide) (by decide))
  | events entry events =>
      obtain ⟨answers, code⟩ := eventHeaders_answers cfg silent s.request.method
      simp only [entry, if_pos events]
      rw [known code (by decide)]
      exact answers
  | nothing entry events callback =>
      simp only [entry, events, callback, Bool.false_eq_true, if_false]
      rw [known unsent (by decide)]
      exact refuse rfl rfl (finish_silent cfg silent unsent (by decide) (by decide) (by decide)
        (by decide) (by decide))
  | noCommand entry events registered level =>
      have flat : ¬ 0 < (s.path cfg).cmdlvl := by omega
      simp only [entry, events, registered, if_neg flat, Bool.false_eq_true, if_false]
      rw [known (show _ = statusInternalError from rfl) (by decide)]
      exact refuse rfl rfl (finish_silent cfg (quiet (t := s.withPath cfg) _ rfl) rfl (by decide)
        (by decide) (by decide) (by decide) (by decide))
  | called entry events registered level run =>
      simp only [entry, events, registered, if_pos level, Bool.false_eq_true, if_false]
      refine ⟨?_, by simp [Route.response]⟩
      rw [finish_service, settled_writer,
        runCallback_service (s := s.withPath cfg)
          ⟨silent.headersSent, silent.firstlineSent, silent.trace⟩ run]
      rfl

theorem answer_routes {cfg : Config} {visit : Nat} {s : State} (silent : s.Silent)
    (authorized : s.request.authenticated ≠ 0) (unknown : s.request.returnCode = statusUnknown) :
    (∀ u, (respond cfg visit s).Returns u →
        Answers cfg (s.route cfg) s.request.method (finish cfg u)) ∧
      (((s.route cfg).response cfg).isSome ∨ s.reader.atEnd.ret ≤ 0 →
        ∃ u, (respond cfg visit s).Returns u) := by
  have same : s.authorized = s := if_neg authorized
  have quiet : (s.setReturnCode statusNotFound).Silent :=
    ⟨silent.headersSent, silent.firstlineSent, silent.trace⟩
  constructor
  · intro u h
    rw [respond_returns, same, if_pos unknown] at h
    obtain ⟨f, find, rfl⟩ := h
    exact finds_answers quiet rfl find
  · intro ends
    suffices found : ∃ f, (findPage cfg visit (s.setReturnCode statusNotFound)).Returns f by
      obtain ⟨f, find⟩ := found
      refine ⟨f.settled, respond_returns.mpr ?_⟩
      rw [same, if_pos unknown]
      exact ⟨f, findPage_returns.mp find, rfl⟩
    apply findPage_total
    intro entry events registered level
    cases ends with
    | inl response =>
        obtain ⟨callback, registered⟩ := Option.isSome_iff_exists.mp registered
        have called : s.route cfg = .callback callback := by
          change (s.setReturnCode statusNotFound).route cfg = _
          simp only [State.route, entry, events, registered, if_pos level, Bool.false_eq_true,
            if_false]
        rw [called] at response
        exact absurd response (by simp [Route.response])
    | inr final => exact final

/-! ## The registry over a run -/

theorem apply_registry {cfg : Config} {s : State} {op : ApiCall} {p : op.Reply × State}
    (h : (apply cfg s op).Returns p) : p.2.registry = s.registry := by
  cases op with
  | parseParam name nameLen value valueLen =>
      obtain ⟨q, param, h⟩ := returns_bind.mp h
      rw [returns_pure] at h
      rw [h]
      exact (parseParam_sameOutside param).registry
  | printf expansion =>
      rw [apply, returns_pure] at h
      obtain ⟨bytes, emits⟩ := s.printf_emits cfg expansion
      rw [h]
      exact emits.registry
  | firstLine code =>
      rw [apply, returns_pure] at h
      rw [h]
      exact (firstLine_answered cfg code s).registry
  | sendHeaders =>
      rw [apply, returns_pure] at h
      rw [h]
      exact (sendHeaders_answered cfg s).registry
  | restSendHeaders code type headers =>
      rw [apply, returns_pure] at h
      rw [h]
      exact (restSendHeaders_answered cfg code type headers s).registry
  | getRawParamChar c =>
      have same : p = getRawParamChar c s := returns_pure.mp h
      rw [same]
      rfl
  | _ =>
      rw [apply, returns_pure] at h
      rw [h]
      rfl

theorem Finds.registry {cfg : Config} {visit : Nat} {s : State} {f : Found}
    (find : Finds cfg visit s f) : f.state.registry = s.registry := by
  cases find with
  | @page p entry get => exact (sendHeaders_answered cfg (s.offering p)).registry
  | events entry path => exact (firstLine_answered cfg statusOk.toUInt16 s).registry
  | called entry path registered level run =>
      obtain ⟨p, run, h⟩ := returns_bind.mp run
      rw [returns_pure] at h
      rw [h]
      refine Script.run_invariant (fun t => t.registry = s.registry) ?_ run rfl
      intro op u q same call
      exact (apply_registry call).trans same
  | _ => rfl

theorem execute_registry {cfg : Config} {conn : Connection} {s t : State}
    (h : (execute cfg conn s).Returns t) : t.registry = s.registry := by
  obtain ⟨p, parse, h⟩ := returns_bind.mp h
  obtain ⟨u, answer, h⟩ := returns_bind.mp h
  rw [returns_pure] at h
  obtain ⟨code, answered, -⟩ := finish_answered cfg u
  rw [h, answered.registry]
  have authorized {s : State} : s.authorized.registry = s.registry := by
    unfold State.authorized
    split <;> rfl
  have settled {f : Found} : f.settled.registry = f.state.registry := by
    unfold Found.settled
    dsimp only
    split <;> split <;> rfl
  rw [respond_returns] at answer
  split at answer
  · obtain ⟨f, find, answer⟩ := answer
    rw [answer, settled, find.registry]
    exact authorized
  · rw [answer]
    exact authorized

theorem serves_registry {cfg : Config} {s t : State} {history : List Connection}
    (h : Serves cfg s history t) : t.registry = s.registry := by
  induction h with
  | nil s => rfl
  | cons first others ih => exact ih.trans (execute_registry first)

theorem result_path {cfg : Config} {text : RequestText} {q : Request} (path : 63 ∉ text.target)
    (short : text.target.length < cfg.urlBufferSize) :
    (text.result cfg q).Path cfg text.target := by
  have kept : text.target.take (cfg.urlBufferSize - 1) = text.target :=
    List.take_of_length_le (by omega)
  have cells : urlCells text.target = text.target := by
    have same : ∀ b ∈ text.target, (if b = 63 then 0 else b) = b := by
      intro b member
      rw [if_neg (fun query : b = 63 => path (query ▸ member))]
    exact (List.map_congr_left same).trans (List.map_id' _)
  constructor
  · refine ⟨q.url, ?_⟩
    change q.url.put (urlCells (text.target.take (cfg.urlBufferSize - 1)) ++ [0]) = _
    rw [kept, cells]
  · exact congrArg List.length kept
  · exact fun b member => (text.target_plain.2 b member).2
  · exact text.target_plain.1
  · exact short

/-! ## A request and its site -/

/-- The request is answered as the site routes it. Where that is to the callback, the callback of the
site is called with the method, the mask of the accepted type and the parts of the path, and its calls
and its result lead to this state. -/
structure Routed (cfg : Config) (conn : Connection) (s : State) (site : Site) (text : RequestText)
    (t : State) : Prop extends
    Answers cfg (site.route cfg text.method text.target) text.method t where
  called : ∀ callback, site.route cfg text.method text.target = .callback callback →
    ∃ args u q, CallsBack cfg conn s callback args u ∧ args.method = text.method ∧
      args.accepted = (text.result cfg (s.accept cfg conn).request).accept ∧
      args.Names cfg.apiLevels (levelled 0 (pathParts text.target)) ∧
      ((callback conn.visit args).run (handle cfg) u).Returns q ∧
      t = finish cfg (Found.settled ⟨1, (q.2.mark (.returned q.1)).setReturnCode q.1⟩)

theorem route_callback {cfg : Config} {s : State} {callback : Callback}
    (route : s.route cfg = .callback callback) :
    findPageEntry cfg s.request s.registry = none ∧ isEventsPath cfg s.request s.registry = false ∧
      s.registry.callback = some callback ∧ 0 < (s.path cfg).cmdlvl := by
  unfold State.route at route
  split at route
  · split at route <;> cases route
  · rename_i entry
    split at route
    · cases route
    · rename_i events
      split at route
      · rename_i registered
        split at route
        · rename_i level
          cases route
          exact ⟨entry, Bool.eq_false_iff.mpr events, registered, level⟩
        · cases route
      · cases route

theorem execute_routed {cfg : Config} {conn : Connection} {s : State} {site : Site} {text : RequestText}
    (holds : s.registry.Holds cfg site) (path : 63 ∉ text.target)
    (short : text.target.length < cfg.urlBufferSize) {r' : Reader} {a : Credentials}
    (parse : (parseRequest cfg conn.checkAuth (s.accept cfg conn).reader
      (s.accept cfg conn).request).Returns
        ⟨1, r', (text.result cfg (s.accept cfg conn).request).withCredentials a⟩)
    (authorized : a.authenticated ≠ 0) (unknown : a.returnCode = statusUnknown) :
    (∀ t, (execute cfg conn s).Returns t → Routed cfg conn s site text t) ∧
      (((site.route cfg text.method text.target).response cfg).isSome ∨ conn.atEnd.ret ≤ 0 →
        ∃ t, (execute cfg conn s).Returns t) := by
  let asked : State :=
    { s.accept cfg conn with
      reader := r', request := (text.result cfg (s.accept cfg conn).request).withCredentials a }
  have place := @result_path cfg text (s.accept cfg conn).request path short
  have url : asked.request.Path cfg text.target :=
    ⟨place.url, place.urlLen, place.nonzero, place.nonempty, place.short⟩
  have route : asked.route cfg = site.route cfg text.method text.target :=
    @route_is cfg asked _ site url holds
  obtain ⟨answers, total⟩ := @answer_routes cfg conn.visit asked ⟨rfl, rfl, rfl⟩ authorized unknown
  rw [route] at answers total
  refine ⟨fun t run => ?_, fun ends => ?_⟩
  · obtain ⟨u, answer, done⟩ := returns_bind.mp (parse.bind_iff.mp run)
    refine ⟨?_, fun callback called => ?_⟩
    · rw [returns_pure.mp done]
      exact answers u answer
    · obtain ⟨entry, events, registered, level⟩ := route_callback (route.trans called)
      have calls : CallsBack cfg conn s callback _ _ :=
        .intro parse authorized unknown entry events registered level
      obtain ⟨q, script, outcome⟩ := (calls.execute_iff t).mp run
      have names := @Request.Path.names cfg (asked.setReturnCode statusNotFound) text.target
        ⟨place.url, place.urlLen, place.nonzero, place.nonempty, place.short⟩
      exact ⟨_, _, q, calls, rfl, rfl, names, script, outcome⟩
  · have atEnd : r'.atEnd = conn.atEnd := (parseRequest_follows parse).atEnd
    obtain ⟨u, answer⟩ := total (atEnd ▸ ends)
    exact ⟨_, parse.bind (answer.bind (returns_pure.mpr rfl))⟩

theorem execute_open {cfg : Config} (auth : cfg.auth = .none) {conn : Connection} {s : State}
    {site : Site} (holds : s.registry.Holds cfg site) (text : RequestText) (path : 63 ∉ text.target)
    (short : text.target.length < cfg.urlBufferSize) {body : List GetByte}
    (input : conn.input = sends text.render ++ body)
    (last : isBlank ((s.accept cfg conn).request.url (cfg.urlBufferSize - 1)) = false) :
    (∀ t, (execute cfg conn s).Returns t → Routed cfg conn s site text t) ∧
      (((site.route cfg text.method text.target).response cfg).isSome ∨ conn.atEnd.ret ≤ 0 →
        ∃ t, (execute cfg conn s).Returns t) := by
  have pending : (s.accept cfg conn).reader.pending = sends text.render ++ body := input
  obtain ⟨r', a, parse, same, -⟩ := parseRequest_credentials conn.checkAuth text
    (q := (s.accept cfg conn).request) pending rfl rfl last
  have one : (s.accept cfg conn).request.authenticated = 1 := if_pos auth
  refine execute_routed holds path short parse ?_ ?_
  · rw [same auth]
    change (s.accept cfg conn).request.authenticated ≠ 0
    rw [one]
    decide
  · rw [same auth]
    rfl

/-- A request for a path is answered as the site routes it, whatever has been served before. -/
theorem execute_routes {cfg : Config} (auth : cfg.auth = .none) {calls : List Registration}
    (proper : ∀ call ∈ calls, call.Proper cfg) {boot s : State} {history : List Connection}
    (booted : Booted cfg boot) (served : Serves cfg (boot.setUp cfg calls) history s)
    (text : RequestText) (path : 63 ∉ text.target) (short : text.target.length < cfg.urlBufferSize)
    (conn : Connection) (body : List GetByte) (input : conn.input = sends text.render ++ body) :
    (∀ g call, (Registration.apply cfg g call).1 = 0 → (Registration.apply cfg g call).2 = g) ∧
      (∀ t, (execute cfg conn s).Returns t →
        Routed cfg conn s (Site.init.registerAll cfg calls) text t) ∧
      ((((Site.init.registerAll cfg calls).route cfg text.method text.target).response cfg).isSome ∨
        conn.atEnd.ret ≤ 0 → ∃ t, (execute cfg conn s).Returns t) := by
  have holds : s.registry.Holds cfg (Site.init.registerAll cfg calls) := by
    rw [serves_registry served]
    exact registerAll_holds proper (init_holds cfg boot)
  exact ⟨register_refused cfg, execute_open auth holds text path short input
    (accept_last ⟨boot, calls, history, booted, served⟩ conn)⟩

theorem execute_routes_icon :
    (∀ g call, (Registration.apply (.default .none) g call).1 = 0 →
      (Registration.apply (.default .none) g call).2 = g) ∧
      (∀ t, (execute (.default .none) (.ofBytes iconRequest.render)
          (State.boot.setUp (.default .none) [.eventsURL (ascii "/events")])).Returns t →
        Routed (.default .none) (.ofBytes iconRequest.render)
          (State.boot.setUp (.default .none) [.eventsURL (ascii "/events")])
          (Site.init.registerAll (.default .none) [.eventsURL (ascii "/events")]) iconRequest t) ∧
      ((((Site.init.registerAll (.default .none) [.eventsURL (ascii "/events")]).route
          (.default .none) .get faviconPath).response (.default .none)).isSome ∨
        (Connection.ofBytes iconRequest.render).atEnd.ret ≤ 0 →
        ∃ t, (execute (.default .none) (.ofBytes iconRequest.render)
          (State.boot.setUp (.default .none) [.eventsURL (ascii "/events")])).Returns t) :=
  execute_routes rfl (by simp only [List.mem_singleton, forall_eq]; exact ⟨by decide, by decide⟩)
    (fun _ _ => rfl) (.nil _) iconRequest (by decide) (by decide) (.ofBytes iconRequest.render) []
    (List.append_nil _).symm

end AttoHTTP
