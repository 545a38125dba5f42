import AttoHTTP.Proof.Framing
import AttoHTTP.Proof.Parameters
import AttoHTTP.Proof.RequestInvariant
import AttoHTTP.Proof.Routing
import AttoHTTP.Proof.Termination

namespace AttoHTTP
open Library Comp

/-! ## The calls of the callback -/

def ApiCall.lineRequest? : ApiCall → Option UInt16
  | .firstLine code => some code
  | .sendHeaders => some statusNotFound.toUInt16
  | .restSendHeaders code _ _ => some code
  | _ => none

def Event.lineRequest? : Event → Option UInt16
  | .call op => op.lineRequest?
  | _ => none

theorem lineRequest_head {events : List Event} (head : ∀ e ∈ events, e.isHead) :
    events.findSome? Event.lineRequest? = none := by
  apply List.findSome?_eq_none_iff.mpr
  intro e member
  have part := head e member
  cases e <;> simp_all [Event.isHead, Event.lineRequest?]

theorem returned_head {events : List Event} (head : ∀ e ∈ events, e.isHead) (code : ReturnCode) :
    Event.returned code ∉ events := by
  intro member
  exact absurd (head _ member) (by simp [Event.isHead])

theorem apply_returns {cfg : Config} {s : State} {op : ApiCall} {p : op.Reply × State}
    (h : (apply cfg s op).Returns p) :
    (∃ asked code, op.lineRequest? = some asked ∧ s.Answered code p.2 ∧
        (s.request.returnCode = statusNotFound → asked = code)) ∨
      (op.lineRequest? = none ∧ (∃ bytes, s.writer.Adds (wire bytes) p.2.writer) ∧
        p.2.request.parsedPart = s.request.parsedPart ∧ p.2.reader.Follows s.reader) := by
  have puts {t : State} (puts : s.Puts t) : (∃ bytes, s.writer.Adds (wire bytes) t.writer) ∧
      t.request.parsedPart = s.request.parsedPart ∧ t.reader.Follows s.reader := by
    obtain ⟨bytes, emits⟩ := puts
    exact ⟨⟨bytes, emits.writer⟩, by rw [emits.request], by rw [emits.reader]; exact .refl _⟩
  cases op with
  | firstLine code =>
      rw [apply, returns_pure] at h
      rw [h]
      exact .inl ⟨code, code, rfl, firstLine_answered cfg code s, fun _ => rfl⟩
  | sendHeaders =>
      rw [apply, returns_pure] at h
      rw [h]
      refine .inl ⟨_, _, rfl, sendHeaders_answered cfg s, fun code => ?_⟩
      rw [code]
  | restSendHeaders code type headers =>
      rw [apply, returns_pure] at h
      rw [h]
      exact .inl ⟨code, code, rfl, restSendHeaders_answered cfg code type headers s, fun _ => rfl⟩
  | print text =>
      rw [apply, returns_pure] at h
      rw [h]
      exact .inr ⟨rfl, puts (s.print_puts text)⟩
  | printf expansion =>
      rw [apply, returns_pure] at h
      rw [h]
      exact .inr ⟨rfl, puts (s.printf_puts cfg expansion)⟩
  | write bytes =>
      rw [apply, returns_pure] at h
      rw [h]
      exact .inr ⟨rfl, puts (s.print_puts bytes)⟩
  | sendEvent event data =>
      rw [apply, returns_pure] at h
      rw [h]
      exact .inr ⟨rfl, puts (sendEvent_emits event data s)⟩
  | parseParam name nameLen value valueLen =>
      obtain ⟨q, param, h⟩ := returns_bind.mp h
      rw [returns_pure] at h
      have outside := parseParam_sameOutside param
      rw [h]
      refine .inr ⟨rfl, ⟨[], ?_⟩, outside.request, outside.reader⟩
      dsimp only
      rw [outside.writer]
      exact Writer.Adds.refl _
  | getRawParamChar c =>
      have same : p = getRawParamChar c s := returns_pure.mp h
      rw [same]
      exact .inr ⟨rfl, ⟨[], Writer.Adds.refl _⟩, rfl, readC_follows _ _⟩

theorem apply_total (cfg : Config) {s : State} (op : ApiCall) (final : s.reader.atEnd.ret ≤ 0) :
    ∃ p, (apply cfg s op).Returns p := by
  cases op with
  | parseParam name nameLen value valueLen =>
      obtain ⟨p, param⟩ := parseParam_total cfg name nameLen value valueLen final
      exact ⟨_, param.bind (returns_pure.mpr rfl)⟩
  | _ => exact ⟨_, returns_pure.mpr rfl⟩

/-- While the callback runs: until a status line has been sent the return code is still the 404
that `_attoHTTPFindPage` starts with. -/
structure State.Responding (s : State) (status : Option UInt16) : Prop where
  framed : s.Framed status
  first : status = (s.writer.trace.findSome? Event.lineRequest?).map lineCode
  unsent : status = none → s.request.returnCode = statusNotFound
  running : ∀ code, Event.returned code ∉ s.writer.trace

theorem State.Responding.append {s t : State} {status status' : Option UInt16} {op : ApiCall}
    {events : List Event} (start : s.Responding status) (framed : t.Framed status')
    (trace : t.writer.trace = (s.mark (.call op)).writer.trace ++ events)
    (head : ∀ e ∈ events, e.isHead) (first : status' = status.or (op.lineRequest?.map lineCode))
    (unsent : status' = none → t.request.returnCode = s.request.returnCode) :
    t.Responding status' := by
  have calls : t.writer.trace = s.writer.trace ++ (.call op :: events) := by
    rw [trace]
    simp [State.mark, Writer.mark]
  constructor
  · exact framed
  · rw [calls, List.findSome?_append, List.findSome?_cons, lineRequest_head head, first,
      start.first]
    cases s.writer.trace.findSome? Event.lineRequest? <;> cases h : op.lineRequest? <;>
      simp [Event.lineRequest?, h]
  · intro none
    rw [unsent none]
    apply start.unsent
    rw [none] at first
    exact (Option.or_eq_none_iff.mp first.symm).1
  · intro code
    rw [calls]
    simp [start.running, returned_head head]

theorem handle_responding {cfg : Config} {op : ApiCall} {s : State} {p : op.Reply × State}
    {status : Option UInt16} (start : s.Responding status) (h : (handle cfg op s).Returns p) :
    ∃ status', p.2.Responding status' := by
  have marked : (s.mark (.call op)).Framed status :=
    start.framed.emit (mark_adds s.writer (.call op)) (by simp [Event.isPlain])
  cases apply_returns h with
  | inl answer =>
      obtain ⟨asked, code, request, answered, same⟩ := answer
      obtain ⟨events, trace, head⟩ := answered.trace
      refine ⟨_, start.append (answered.framed status marked) trace head ?_ (by simp)⟩
      cases status with
      | some line => simp [request]
      | none =>
          have asked_eq : asked = code := same (start.unsent rfl)
          simp [request, asked_eq]
  | inr plain =>
      obtain ⟨request, ⟨bytes, adds⟩, same, -⟩ := plain
      refine ⟨status, start.append (marked.emit adds (wire_plain bytes)) adds.trace
        (wire_head bytes) (by simp [request]) (fun _ => Request.returnCode_eq same)⟩

theorem handle_total (cfg : Config) (op : ApiCall) (s : State) (final : s.reader.atEnd.ret ≤ 0) :
    ∃ p, (handle cfg op s).Returns p ∧ p.2.reader.atEnd.ret ≤ 0 := by
  obtain ⟨p, call⟩ := apply_total cfg (s := s.mark (.call op)) op final
  refine ⟨p, call, ?_⟩
  have atEnd : p.2.reader.atEnd = s.reader.atEnd := by
    cases apply_returns call with
    | inl answer =>
        obtain ⟨_, _, _, answered, _⟩ := answer
        rw [answered.reader]
        rfl
    | inr plain => exact plain.2.2.2.atEnd
  rwa [atEnd]

structure State.Silent (s : State) : Prop where
  headersSent : s.writer.headersSent = false
  firstlineSent : s.writer.firstlineSent = false
  trace : s.writer.trace = []

theorem State.Silent.framed {s : State} (silent : s.Silent) : s.Framed none := by
  constructor
  · rw [silent.headersSent, silent.trace]
    exact .nothing (by simp)
  · rw [silent.firstlineSent]
    rfl

theorem runCallback_returns {cfg : Config} {callback : Callback} {visit : Nat}
    {args : CallbackArgs} {s t : State} (silent : s.Silent)
    (unsent : s.request.returnCode = statusNotFound)
    (h : (runCallback cfg callback visit args s).Returns t) :
    ∃ (u : State) (code : ReturnCode) (status : Option UInt16),
      u.Responding status ∧ t = (u.mark (.returned code)).setReturnCode code := by
  obtain ⟨p, run, h⟩ := returns_bind.mp h
  rw [returns_pure] at h
  have start : (s.mark (.callback args)).Responding none := by
    constructor
    · exact silent.framed.emit (mark_adds _ _) (by simp [Event.isPlain])
    · simp [State.mark, Writer.mark, silent.trace, Event.lineRequest?]
    · intro _
      exact unsent
    · simp [State.mark, Writer.mark, silent.trace]
  obtain ⟨status, responding⟩ := Script.run_invariant (fun s => ∃ status, s.Responding status)
    (fun op s p hs step => by
      obtain ⟨status, hs⟩ := hs
      exact handle_responding hs step) run ⟨none, start⟩
  exact ⟨p.2, p.1, status, responding, h⟩

theorem runCallback_total (cfg : Config) (callback : Callback) (visit : Nat) (args : CallbackArgs)
    {s : State} (final : s.reader.atEnd.ret ≤ 0) :
    ∃ t, (runCallback cfg callback visit args s).Returns t := by
  obtain ⟨p, run, -⟩ := Script.run_total (fun s : State => s.reader.atEnd.ret ≤ 0)
    (handle_total cfg) (callback visit args) (s.mark (.callback args)) final
  exact ⟨_, run.bind (returns_pure.mpr rfl)⟩

theorem findPage_total (cfg : Config) (visit : Nat) {s : State}
    (final : findPageEntry cfg s.request s.registry = none →
      isEventsPath cfg s.request s.registry = false → s.registry.callback.isSome →
      0 < (s.path cfg).cmdlvl → s.reader.atEnd.ret ≤ 0) :
    ∃ f, (findPage cfg visit s).Returns f := by
  cases entry : findPageEntry cfg s.request s.registry with
  | some p =>
      by_cases get : s.request.method = .get
      · exact ⟨_, findPage_returns.mpr (.page entry get)⟩
      · exact ⟨_, findPage_returns.mpr (.unsupported entry get)⟩
  | none =>
      cases path : isEventsPath cfg s.request s.registry with
      | true => exact ⟨_, findPage_returns.mpr (.events entry path)⟩
      | false =>
          cases registered : s.registry.callback with
          | none => exact ⟨_, findPage_returns.mpr (.nothing entry path registered)⟩
          | some callback =>
              by_cases level : 0 < (s.path cfg).cmdlvl
              · obtain ⟨t, run⟩ := runCallback_total cfg callback visit (s.callbackArgs cfg)
                  (s := s.withPath cfg) (final entry path (by rw [registered]; rfl) level)
                exact ⟨_, findPage_returns.mpr (.called entry path registered level run)⟩
              · exact ⟨_, findPage_returns.mpr (.noCommand entry path registered (by omega))⟩

/-! ## The pages and the event stream -/

theorem answered_known {s t : State} {code : UInt16} (answered : s.Answered code t)
    (known : (reasonPhrase code).isSome = true) : t.request = s.request := by
  rw [answered.request, Request.afterLine]
  simp [known]

theorem sendPage_sends (cfg : Config) (p : Page) {s : State} (silent : s.Silent) :
    (sendPage cfg p s).Framed (some 200) ∧ (sendPage cfg p s).request.returnCode = statusOk ∧
      ∀ code, Event.returned code ∉ (sendPage cfg p s).writer.trace := by
  let start : State := { s with
    request := { s.request with
      returnCode := statusOk, contenttype := p.type, contentlength := p.size } }
  let body := (p.content.getD fun _ => 0).bytes p.size.toNat
  have answered : start.Answered 200 (sendHeaders cfg start).state := sendHeaders_answered cfg start
  obtain ⟨events, trace, head⟩ := answered.trace
  have emits : (sendHeaders cfg start).state.Emits (.pageContent :: wire body) (sendPage cfg p s) :=
    (State.mark_emits _ .pageContent).trans (State.write_emits _ body)
  have framed : start.Framed none := ⟨silent.framed.trace, silent.framed.flag⟩
  refine ⟨(answered.framed none framed).emit emits.writer ?_, ?_, fun code => ?_⟩
  · intro e member
    cases List.mem_cons.mp member with
    | inl first => rw [first]; rfl
    | inr rest => exact wire_plain body e rest
  · rw [emits.request, answered_known answered (by decide)]
  · have empty : start.writer.trace = [] := silent.trace
    rw [emits.writer.trace, trace, empty]
    simp [returned_head head, returned_head (wire_head body)]

theorem eventHeaders_sends (cfg : Config) {s : State} (silent : s.Silent) :
    (sendServerSentEventHeaders cfg s).state.Framed (some 200) ∧
      (sendServerSentEventHeaders cfg s).state.request.returnCode = statusServerSentEvents ∧
      ∀ code, Event.returned code ∉ (sendServerSentEventHeaders cfg s).state.writer.trace := by
  have line := firstLine_fresh cfg statusOk.toUInt16 silent.firstlineSent
  have framed := (firstLine_answered cfg statusOk.toUInt16 s).framed none silent.framed
  have unsent : (firstLine cfg statusOk.toUInt16 s).state.writer.headersSent = false := by
    rw [line.writer.headersSent]
    exact silent.headersSent
  have marked := framed.emit (State.mark_emits _ .eventStream).writer (by simp [Event.isPlain])
  obtain ⟨bytes, block⟩ := headerBlock_emits
    (s := (firstLine cfg statusOk.toUInt16 s).state.mark .eventStream)
    (((State.printf_puts cfg _ (ascii "Content-Type: " ++ MimeType.textEventStream.name ++
      httpEol)).trans (State.print_puts _ (ascii "Cache-Control: no-cache" ++ httpEol))).trans
        (State.print_puts _ httpEol))
  have whole := marked.sendHeaders unsent block (wire_plain bytes)
  refine ⟨⟨whole.trace, whole.flag⟩, rfl, fun code => ?_⟩
  have trace : (sendServerSentEventHeaders cfg s).state.writer.trace =
      [] ++ statusLineEvents (lineCode statusOk.toUInt16) ++ [.eventStream] ++
        (.headerBlock :: wire bytes) := by
    have first := line.writer.trace
    rw [show (s.lineSent statusOk.toUInt16).writer.trace = [] from silent.trace] at first
    rw [← first]
    exact block.writer.trace
  rw [trace]
  simp [returned_head (wire_head bytes), returned_head (statusLineEvents_head _)]

/-! ## The code on the wire and the code returned -/

/-- What `attoHTTPExecute` makes of the code that the callback returns. -/
def reported (code : ReturnCode) : ReturnCode := if code = statusUnknown then statusOk else code

def wireNumber (code : ReturnCode) : Nat :=
  if code = statusServerSentEvents then 200 else code.toNat

/-- The status line sent so far, or the one that the return code is about to get, has the number of
the return code. -/
def codesAgree : Option UInt16 → ReturnCode → Bool
  | some line, code => line.toNat == wireNumber code
  | none, code => lineCode code.toUInt16 == 500 || decide (code.toNat < 2 ^ 16)

/-- The callback, should it run, returns the code that its first header call has asked for. -/
def CallbackAgrees (trace : List Event) : Prop :=
  ∀ code, .returned code ∈ trace →
    codesAgree ((trace.findSome? Event.lineRequest?).map lineCode) (reported code)

theorem callbackAgrees_head {trace events : List Event} (head : ∀ e ∈ events, e.isHead) :
    CallbackAgrees (trace ++ events) ↔ CallbackAgrees trace := by
  simp [CallbackAgrees, List.findSome?_append, lineRequest_head head, returned_head head]

theorem callbackAgrees_of_none {trace : List Event} (none : ∀ code, Event.returned code ∉ trace) :
    CallbackAgrees trace :=
  fun code member => absurd member (none code)

theorem lineCode_eq_500 {code : UInt16} : lineCode code = 500 ↔ reasonPhrase code = none := by
  unfold lineCode
  cases known : reasonPhrase code with
  | none => simp
  | some phrase =>
      simp only [Option.isSome_some, if_true, reduceCtorEq, iff_false]
      intro equal
      have none : reasonPhrase 500 = none := by decide
      rw [equal, none] at known
      cases known

theorem answered_agrees {s t : State} {code : UInt16} (answered : s.Answered code t)
    (fresh : s.writer.firstlineSent = false)
    (known : (reasonPhrase code).isSome = true →
      (code.toNat = wireNumber s.request.returnCode ↔ codesAgree none s.request.returnCode))
    (unknown : reasonPhrase code = none → codesAgree none s.request.returnCode) :
    (lineCode code).toNat = wireNumber t.request.returnCode ↔
      codesAgree none s.request.returnCode := by
  rw [answered.request, Request.afterLine, fresh]
  cases phrase : reasonPhrase code with
  | some text =>
      have line : lineCode code = code := by simp [lineCode, phrase]
      simpa [line] using known (by simp [phrase])
  | none =>
      have line : lineCode code = 500 := lineCode_eq_500.mpr phrase
      simp [line, unknown phrase, wireNumber, statusInternalError, statusServerSentEvents]

theorem finish_answered (cfg : Config) (s : State) :
    ∃ code, s.Answered code (finish cfg s) ∧
      ((reasonPhrase code).isSome = true →
        (code.toNat = wireNumber s.request.returnCode ↔ codesAgree none s.request.returnCode)) ∧
      (reasonPhrase code = none → codesAgree none s.request.returnCode) := by
  unfold finish
  by_cases unauthorized : s.request.returnCode = statusUnauthorized
  · rw [if_pos unauthorized, unauthorized]
    refine ⟨_, sendAuthMessage_answered cfg s, fun _ => ?_, fun _ => ?_⟩
    · exact iff_of_true (by decide) (by decide)
    · decide
  · rw [if_neg unauthorized]
    by_cases events : s.request.returnCode = statusServerSentEvents
    · rw [if_pos events, events]
      refine ⟨_, firstLine_answered cfg _ s, fun _ => ?_, fun _ => ?_⟩
      · exact iff_of_true (by decide) (by decide)
      · decide
    · rw [if_neg events]
      refine ⟨_, firstLine_answered cfg _ s, fun known => ?_, fun unknown => ?_⟩
      · have line : ¬ lineCode s.request.returnCode.toUInt16 = 500 := by
          rw [lineCode_eq_500]
          exact Option.isSome_iff_ne_none.mp known
        simp only [wireNumber, if_neg events, codesAgree, Bool.or_eq_true, beq_iff_eq,
          decide_eq_true_eq, line, false_or, UInt32.toNat_toUInt16]
        omega
      · simp [codesAgree, lineCode_eq_500.mpr unknown]

theorem finish_agrees (cfg : Config) {s : State} {status : Option UInt16} (framed : s.Framed status) :
    ∃ line, (finish cfg s).Framed (some line) ∧
      (line.toNat = wireNumber (finish cfg s).request.returnCode ↔
        codesAgree status s.request.returnCode) ∧
      (CallbackAgrees (finish cfg s).writer.trace ↔ CallbackAgrees s.writer.trace) := by
  obtain ⟨code, answered, known, unknown⟩ := finish_answered cfg s
  obtain ⟨events, trace, head⟩ := answered.trace
  refine ⟨_, answered.framed status framed, ?_, ?_⟩
  · cases status with
    | some line =>
        rw [answered.request, Request.afterLine, framed.flag]
        simp [codesAgree]
    | none => exact answered_agrees answered framed.flag known unknown
  · rw [trace]
    exact callbackAgrees_head head

/-! ## Serving a request -/

theorem setReturnCode_framed {s : State} {status : Option UInt16} (framed : s.Framed status)
    (code : ReturnCode) : (s.setReturnCode code).Framed status :=
  ⟨framed.trace, framed.flag⟩

theorem settled_writer (f : Found) : f.settled.writer = f.state.writer := by
  unfold Found.settled
  dsimp only
  split <;> split <;> rfl

theorem settled_returnCode {f : Found}
    (found : f.state.request.returnCode = statusUnknown → 0 < f.ret) :
    f.settled.request.returnCode = reported f.state.request.returnCode := by
  unfold Found.settled reported
  dsimp only
  by_cases unknown : f.state.request.returnCode = statusUnknown
  · simp only [if_pos (And.intro (found unknown) unknown), if_pos unknown]
    exact congrArg (fun s : State => s.request.returnCode)
      (if_neg (show ¬ statusOk = statusUnknown by decide))
  · have one : ¬ (0 < f.ret ∧ f.state.request.returnCode = statusUnknown) :=
      fun both => unknown both.2
    simp only [if_neg one, if_neg unknown]

theorem findPage_agrees {cfg : Config} {visit : Nat} {s : State} {f : Found} (silent : s.Silent)
    (unsent : s.request.returnCode = statusNotFound) (h : (findPage cfg visit s).Returns f) :
    ∃ status, f.state.Framed status ∧
      (f.state.request.returnCode = statusUnknown → 0 < f.ret) ∧
      (codesAgree status (reported f.state.request.returnCode) ↔
        CallbackAgrees f.state.writer.trace) := by
  have empty : CallbackAgrees s.writer.trace := by
    rw [silent.trace]
    exact callbackAgrees_of_none (by simp)
  have found : (0 : Int8) < 1 := by decide
  cases findPage_returns.mp h with
  | @page p entry get =>
      obtain ⟨framed, code, running⟩ := sendPage_sends cfg p silent
      have agree : codesAgree (some 200) (reported (sendPage cfg p s).request.returnCode) := by
        rw [code]
        decide
      have calls := callbackAgrees_of_none running
      exact ⟨some 200, framed, fun _ => found, iff_of_true agree calls⟩
  | unsupported entry other =>
      have agree : codesAgree none (reported statusUnsupported) := by decide
      have known : statusUnsupported ≠ statusUnknown := by decide
      exact ⟨none, setReturnCode_framed silent.framed _, fun unknown => absurd unknown known,
        iff_of_true agree empty⟩
  | events entry path =>
      obtain ⟨framed, code, running⟩ := eventHeaders_sends cfg silent
      have agree : codesAgree (some 200)
          (reported (sendServerSentEventHeaders cfg s).state.request.returnCode) := by
        rw [code]
        decide
      have calls := callbackAgrees_of_none running
      exact ⟨some 200, framed, fun _ => found, iff_of_true agree calls⟩
  | nothing entry path callback =>
      have agree : codesAgree none (reported statusNotFound) := by decide
      have known : statusNotFound ≠ statusUnknown := by decide
      rw [← unsent] at agree known
      exact ⟨none, silent.framed, fun unknown => absurd unknown known, iff_of_true agree empty⟩
  | noCommand entry path registered level =>
      have agree : codesAgree none (reported statusInternalError) := by decide
      exact ⟨none, ⟨silent.framed.trace, silent.framed.flag⟩, fun _ => found,
        iff_of_true agree empty⟩
  | called entry path registered level run =>
      obtain ⟨u, code, status, responding, equal⟩ := runCallback_returns (s := s.withPath cfg)
        ⟨silent.headersSent, silent.firstlineSent, silent.trace⟩ unsent run
      have framed := responding.framed.emit (State.mark_emits u (.returned code)).writer
        (by simp [Event.isPlain])
      rw [equal]
      refine ⟨status, ⟨framed.trace, framed.flag⟩, fun _ => found, ?_⟩
      have trace : ((u.mark (.returned code)).setReturnCode code).writer.trace =
          u.writer.trace ++ [.returned code] := rfl
      have first : ((u.writer.trace ++ [Event.returned code]).findSome? Event.lineRequest?).map lineCode =
          status := by
        rw [List.findSome?_append, responding.first]
        simp [Event.lineRequest?]
      simp only [CallbackAgrees, trace, first]
      constructor
      · intro agree c member
        have same : c = code := by simpa [responding.running c] using member
        rw [same]
        exact agree
      · intro agree
        exact agree code (by simp)

theorem respond_agrees {cfg : Config} {visit : Nat} {s u : State} (silent : s.Silent)
    (small : s.request.returnCode.toNat < 2 ^ 16) (h : (respond cfg visit s).Returns u) :
    ∃ status, u.Framed status ∧
      (codesAgree status u.request.returnCode ↔ CallbackAgrees u.writer.trace) := by
  have quiet (code : ReturnCode) : (s.setReturnCode code).Silent :=
    ⟨silent.headersSent, silent.firstlineSent, silent.trace⟩
  have authorized : ∃ code, code.toNat < 2 ^ 16 ∧ s.authorized = s.setReturnCode code := by
    unfold State.authorized
    split
    · exact ⟨statusUnauthorized, by decide, rfl⟩
    · exact ⟨s.request.returnCode, small, rfl⟩
  obtain ⟨code, small, start⟩ := authorized
  rw [respond_returns, start] at h
  split at h
  · obtain ⟨f, find, h⟩ := h
    obtain ⟨status, framed, found, agree⟩ :=
      findPage_agrees (quiet statusNotFound) rfl (findPage_returns.mpr find)
    rw [h]
    refine ⟨status, ⟨?_, ?_⟩, ?_⟩
    · rw [settled_writer]
      exact framed.trace
    · rw [settled_writer]
      exact framed.flag
    · rw [settled_returnCode found, settled_writer]
      exact agree
  · have empty : CallbackAgrees u.writer.trace := by
      rw [h, (quiet code).trace]
      exact callbackAgrees_of_none (by simp)
    refine ⟨none, h ▸ (quiet code).framed, iff_of_true ?_ empty⟩
    rw [h]
    change codesAgree none code = true
    rw [codesAgree, Bool.or_eq_true, decide_eq_true_eq]
    exact .inr small

theorem smallCode_keeps (cfg : Config) (check : CheckAuth) :
    RequestInvariant cfg check fun q => q.returnCode.toNat < 2 ^ 16 where
  method _ _ h := h
  version _ _ h := h
  url _ _ _ parse h := by
    obtain ⟨_, _, _, _, request⟩ := parseURL_sameButUrl parse
    rw [request]
    exact h
  done _ h := h
  unsupported _ _ := show statusUnsupported.toNat < 2 ^ 16 by decide
  failed _ _ := show statusInternalError.toNat < 2 ^ 16 by decide
  header q name value h := by
    unfold recordHeader
    split
    · exact h
    · split
      · exact h
      · split
        · split
          · exact h
          · unfold authorize
            dsimp only
            split
            · rename_i build _ _ _
              simp only [checkAuth, if_neg build]
              split
              · exact show statusUnauthorized.toNat < 2 ^ 16 by decide
              · exact h
            · exact show statusUnauthorized.toNat < 2 ^ 16 by decide
        · exact h

theorem accept_silent (cfg : Config) (conn : Connection) (s : State) : (s.accept cfg conn).Silent :=
  ⟨rfl, rfl, rfl⟩

theorem execute_agrees {cfg : Config} {conn : Connection} {s t : State}
    (h : (execute cfg conn s).Returns t) :
    ∃ line, t.Framed (some line) ∧
      (line.toNat = wireNumber t.request.returnCode ↔ CallbackAgrees t.writer.trace) := by
  obtain ⟨p, parse, h⟩ := returns_bind.mp h
  obtain ⟨u, answer, h⟩ := returns_bind.mp h
  rw [returns_pure] at h
  have small : p.request.returnCode.toNat < 2 ^ 16 :=
    (smallCode_keeps cfg conn.checkAuth).parseRequest parse
      (show statusUnknown.toNat < 2 ^ 16 by decide)
  have silent := accept_silent cfg conn s
  obtain ⟨status, framed, agree⟩ := respond_agrees
    (s := { s.accept cfg conn with reader := p.reader, request := p.request })
    ⟨silent.headersSent, silent.firstlineSent, silent.trace⟩ small answer
  obtain ⟨line, whole, code, calls⟩ := finish_agrees cfg framed
  rw [h]
  exact ⟨line, whole, (code.trans agree).trans calls.symm⟩

theorem respond_total (cfg : Config) (visit : Nat) {s : State} (final : s.reader.atEnd.ret ≤ 0) :
    ∃ u, (respond cfg visit s).Returns u := by
  by_cases unknown : s.authorized.request.returnCode = statusUnknown
  · have atEnd : (s.authorized.setReturnCode statusNotFound).reader.atEnd.ret ≤ 0 := by
      unfold State.authorized
      split <;> exact final
    obtain ⟨f, find⟩ := findPage_total cfg visit fun _ _ _ _ => atEnd
    refine ⟨f.settled, respond_returns.mpr ?_⟩
    rw [if_pos unknown]
    exact ⟨f, findPage_returns.mp find, rfl⟩
  · refine ⟨s.authorized, respond_returns.mpr ?_⟩
    rw [if_neg unknown]

theorem execute_total (cfg : Config) (conn : Connection) (s : State) (final : conn.atEnd.ret = 0) :
    ∃ t, (execute cfg conn s).Returns t := by
  obtain ⟨p, parse⟩ := parseRequest_total cfg conn.checkAuth (r := (s.accept cfg conn).reader) final
    (s.accept cfg conn).request
  have atEnd : p.reader.atEnd.ret ≤ 0 := by
    rw [(parseRequest_follows parse).atEnd]
    exact Int8.le_of_eq final
  obtain ⟨u, answer⟩ := respond_total cfg conn.visit
    (s := { s.accept cfg conn with reader := p.reader, request := p.request }) atEnd
  exact ⟨_, parse.bind (answer.bind (returns_pure.mpr rfl))⟩

def sendTwice : Callback := fun _ _ =>
  .call (.firstLine 404) fun _ =>
    .call (.restSendHeaders 200 (ascii "text/plain") none) fun _ =>
      .call .sendHeaders fun _ => .call (.firstLine 500) fun _ => .done 404

theorem sendTwice_calls :
    ∃ t, (execute (.default .none) (.ofBytes (ascii "GET /a HTTP/1.0\r\n\r\n"))
        (State.boot.setUp (.default .none) [.defaultREST (some sendTwice)])).Returns t ∧
      t.writer.trace.filterMap Event.lineRequest? = [404, 200, statusNotFound.toUInt16, 500] :=
  returns_of_run (n := 100) (by decide +kernel)

/-- Every request is answered with one status line, which comes before the header block. -/
theorem execute_framed (cfg : Config) (conn : Connection) (s : State) (final : conn.atEnd.ret = 0) :
    ∃ t code, (execute cfg conn s).Returns t ∧
      Framed (some code) t.writer.headersSent t.writer.trace ∧
      t.writer.trace.countP Event.isStatusLine = 1 ∧
      t.writer.trace.countP Event.isHeaderBlock ≤ 1 := by
  obtain ⟨t, run⟩ := execute_total cfg conn s final
  obtain ⟨code, framed, -⟩ := execute_agrees run
  obtain ⟨lines, blocks, -⟩ := framed.trace.counts
  refine ⟨t, code, run, framed.trace, lines, ?_⟩
  rw [blocks]
  split <;> omega

theorem execute_framed_twice :
    ∃ t code, (execute (.default .none) (.ofBytes (ascii "GET /a HTTP/1.0\r\n\r\n"))
        (State.boot.setUp (.default .none) [.defaultREST (some sendTwice)])).Returns t ∧
      t.writer.trace.filterMap Event.lineRequest? = [404, 200, statusNotFound.toUInt16, 500] ∧
      Framed (some code) t.writer.headersSent t.writer.trace ∧
      t.writer.trace.countP Event.isStatusLine = 1 ∧
      t.writer.trace.countP Event.isHeaderBlock ≤ 1 := by
  obtain ⟨t, run, calls⟩ := sendTwice_calls
  obtain ⟨t', code, run', framed⟩ := execute_framed (.default .none)
    (.ofBytes (ascii "GET /a HTTP/1.0\r\n\r\n"))
    (State.boot.setUp (.default .none) [.defaultREST (some sendTwice)]) (by decide)
  rw [run'.unique run] at framed
  exact ⟨t, code, run, calls, framed⟩

/-- The number the client receives is the one returned exactly when the callback returns the code
that its first header call has asked for. -/
theorem statusLine_returned_iff {cfg : Config} {conn : Connection} {s t : State}
    (h : (execute cfg conn s).Returns t) :
    (t.writer.trace.findSome? Event.statusLine?).map UInt16.toNat =
        some (wireNumber t.request.returnCode) ↔ CallbackAgrees t.writer.trace := by
  obtain ⟨line, framed, agree⟩ := execute_agrees h
  rw [framed.trace.counts.2.2, Option.map_some, Option.some.injEq]
  exact agree

theorem statusLine_returned_iff_twice :
    ∃ t, (execute (.default .none) (.ofBytes (ascii "GET /a HTTP/1.0\r\n\r\n"))
        (State.boot.setUp (.default .none) [.defaultREST (some sendTwice)])).Returns t ∧
      t.writer.trace.filterMap Event.lineRequest? = [404, 200, statusNotFound.toUInt16, 500] ∧
      ((t.writer.trace.findSome? Event.statusLine?).map UInt16.toNat =
        some (wireNumber t.request.returnCode) ↔ CallbackAgrees t.writer.trace) := by
  obtain ⟨t, run, calls⟩ := sendTwice_calls
  exact ⟨t, run, calls, statusLine_returned_iff run⟩

def sendOkReportNotFound : Callback := fun _ _ => .call (.firstLine 200) fun _ => .done 404

theorem statusLine_not_returned :
    ∃ t, (execute (.default .none) (.ofBytes (ascii "GET /a HTTP/1.0\r\n\r\n"))
        (State.boot.setUp (.default .none) [.defaultREST (some sendOkReportNotFound)])).Returns t ∧
      (t.writer.trace.findSome? Event.statusLine?).map UInt16.toNat ≠
        some (wireNumber t.request.returnCode) := by
  obtain ⟨t, run, codes⟩ := returns_of_run (n := 100)
    (x := execute (.default .none) (.ofBytes (ascii "GET /a HTTP/1.0\r\n\r\n"))
      (State.boot.setUp (.default .none) [.defaultREST (some sendOkReportNotFound)]))
    (f := fun t => (t.writer.trace.findSome? Event.statusLine?, t.request.returnCode))
    (b := (some 200, 404)) (by decide +kernel)
  obtain ⟨line, code⟩ := Prod.mk.inj codes
  refine ⟨t, run, ?_⟩
  rw [line, code]
  decide

end AttoHTTP
