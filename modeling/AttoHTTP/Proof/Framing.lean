import AttoHTTP.Proof.Output

/-!
# The frame of a response

Every function that sends a part of the response head looks at the two flags and appends to the
trace. `Framed` reads the trace as a status line and a header block; `State.Answered` is what each
of these functions does to the frame and to the rest of the state.
-/

namespace AttoHTTP
open Library

def lineCode (code : UInt16) : UInt16 := if (reasonPhrase code).isSome then code else 500

def statusLineEvents (code : UInt16) : List Event :=
  .statusLine code :: wire (statusLineText code ((reasonPhrase code).getD (ascii "Internal Error")))

def Event.isPlain : Event → Bool
  | .statusLine _ => false
  | .headerBlock => false
  | _ => true

def Event.isStatusLine : Event → Bool
  | .statusLine _ => true
  | _ => false

def Event.isHeaderBlock : Event → Bool
  | .headerBlock => true
  | _ => false

def Event.statusLine? : Event → Option UInt16
  | .statusLine code => some code
  | _ => none

def Event.isHead : Event → Bool
  | .wrote _ => true
  | .statusLine _ => true
  | .headerBlock => true
  | _ => false

inductive Framed : Option UInt16 → Bool → List Event → Prop
  | nothing {trace : List Event} (plain : ∀ e ∈ trace, e.isPlain) : Framed none false trace
  | status {before after : List Event} {code : UInt16} (plain : ∀ e ∈ before, e.isPlain)
      (plain' : ∀ e ∈ after, e.isPlain) :
      Framed (some code) false (before ++ statusLineEvents code ++ after)
  | headers {before between after : List Event} {code : UInt16} (plain : ∀ e ∈ before, e.isPlain)
      (plain' : ∀ e ∈ between, e.isPlain) (plain'' : ∀ e ∈ after, e.isPlain) :
      Framed (some code) true
        (before ++ statusLineEvents code ++ between ++ .headerBlock :: after)

theorem wire_plain (bytes : List UInt8) : ∀ e ∈ wire bytes, e.isPlain := by
  intro e member
  obtain ⟨b, -, rfl⟩ := List.mem_map.mp member
  rfl

theorem wire_head (bytes : List UInt8) : ∀ e ∈ wire bytes, e.isHead := by
  intro e member
  obtain ⟨b, -, rfl⟩ := List.mem_map.mp member
  rfl

theorem Framed.append {status : Option UInt16} {sent : Bool} {trace events : List Event}
    (framed : Framed status sent trace) (plain : ∀ e ∈ events, e.isPlain) :
    Framed status sent (trace ++ events) := by
  have extend {part : List Event} (h : ∀ e ∈ part, e.isPlain) : ∀ e ∈ part ++ events, e.isPlain := by
    intro e member
    cases List.mem_append.mp member with
    | inl old => exact h e old
    | inr new => exact plain e new
  cases framed with
  | nothing first => exact .nothing (extend first)
  | status first last =>
      rw [List.append_assoc]
      exact .status first (extend last)
  | headers first between last =>
      rw [List.append_assoc, List.cons_append]
      exact .headers first between (extend last)

theorem Framed.sendStatus {trace : List Event} (framed : Framed none false trace) (code : UInt16) :
    Framed (some code) false (trace ++ statusLineEvents code) := by
  cases framed with
  | nothing plain =>
      have none : ∀ e ∈ ([] : List Event), e.isPlain := by simp
      simpa using Framed.status plain none

theorem Framed.sendHeaders {trace : List Event} {code : UInt16}
    (framed : Framed (some code) false trace) {events : List Event}
    (plain : ∀ e ∈ events, e.isPlain) :
    Framed (some code) true (trace ++ .headerBlock :: events) := by
  cases framed with
  | status first last => exact .headers first last plain

theorem Framed.unsent {sent : Bool} {trace : List Event} (framed : Framed none sent trace) :
    sent = false := by
  cases framed
  rfl

theorem plain_counts {events : List Event} (plain : ∀ e ∈ events, e.isPlain) :
    events.countP Event.isStatusLine = 0 ∧ events.countP Event.isHeaderBlock = 0 ∧
      events.findSome? Event.statusLine? = none := by
  refine ⟨List.countP_eq_zero.mpr ?_, List.countP_eq_zero.mpr ?_, List.findSome?_eq_none_iff.mpr ?_⟩
  all_goals
    intro e member
    have none := plain e member
    cases e <;> simp_all [Event.isPlain, Event.isStatusLine, Event.isHeaderBlock, Event.statusLine?]

theorem Framed.counts {status : Option UInt16} {sent : Bool} {trace : List Event}
    (framed : Framed status sent trace) :
    trace.countP Event.isStatusLine = (if status.isSome then 1 else 0) ∧
      trace.countP Event.isHeaderBlock = (if sent then 1 else 0) ∧
      trace.findSome? Event.statusLine? = status := by
  cases framed with
  | nothing plain => simp [plain_counts plain]
  | status plain plain' =>
      simp [plain_counts plain, plain_counts plain', plain_counts (wire_plain _), statusLineEvents,
        List.countP_cons, List.findSome?_append, List.findSome?_cons, Event.isStatusLine,
        Event.isHeaderBlock, Event.statusLine?]
  | headers plain plain' plain'' =>
      simp [plain_counts plain, plain_counts plain', plain_counts plain'',
        plain_counts (wire_plain _), statusLineEvents, List.countP_cons, List.findSome?_append,
        List.findSome?_cons, Event.isStatusLine, Event.isHeaderBlock, Event.statusLine?]

/-- The flags and the trace agree. -/
structure State.Framed (s : State) (status : Option UInt16) : Prop where
  trace : AttoHTTP.Framed status s.writer.headersSent s.writer.trace
  flag : s.writer.firstlineSent = status.isSome

theorem State.Framed.emit {s t : State} {status : Option UInt16} {events : List Event}
    (framed : s.Framed status) (adds : s.writer.Adds events t.writer)
    (plain : ∀ e ∈ events, e.isPlain) : t.Framed status := by
  constructor
  · rw [adds.headersSent, adds.trace]
    exact framed.trace.append plain
  · rw [adds.firstlineSent, framed.flag]

theorem State.Framed.sendHeaders {s t : State} {code : UInt16} {events : List Event}
    (framed : s.Framed (some code)) (unsent : s.writer.headersSent = false)
    (emits : s.headersSent.Emits (.headerBlock :: events) t) (plain : ∀ e ∈ events, e.isPlain) :
    t.Framed (some code) := by
  constructor
  · rw [emits.writer.headersSent, emits.writer.trace]
    have trace := framed.trace
    rw [unsent] at trace
    exact trace.sendHeaders plain
  · rw [emits.writer.firstlineSent]
    exact framed.flag

/-! ## What a head function does -/

/-- An unsupported code turns into the return code 500 when the status line is sent for it. -/
def Request.afterLine (sent : Bool) (code : UInt16) (q : Request) : Request :=
  if sent || (reasonPhrase code).isSome then q else { q with returnCode := statusInternalError }

structure State.Answered (s : State) (code : UInt16) (t : State) : Prop where
  reader : t.reader = s.reader
  json : t.json = s.json
  registry : t.registry = s.registry
  request : t.request = s.request.afterLine s.writer.firstlineSent code
  trace : ∃ events, t.writer.trace = s.writer.trace ++ events ∧ ∀ e ∈ events, e.isHead
  framed : ∀ status, s.Framed status → t.Framed (some (status.getD (lineCode code)))

theorem statusLineEvents_head (code : UInt16) : ∀ e ∈ statusLineEvents code, e.isHead := by
  intro e member
  cases List.mem_cons.mp member with
  | inl first => rw [first]; rfl
  | inr rest => exact wire_head _ e rest

def State.lineSent (code : UInt16) (s : State) : State :=
  { s with
    request := s.request.afterLine false code
    writer := { s.writer with firstlineSent := true } }

theorem statusLine_short {code : UInt16} {phrase : List UInt8} (known : reasonPhrase code = some phrase) :
    (statusLineText code phrase).length < 128 := by
  unfold reasonPhrase at known
  repeat' split at known
  all_goals first
    | (rename_i equal; cases known; rw [equal]; decide)
    | cases known

theorem firstLine_fresh (cfg : Config) (code : UInt16) {s : State}
    (fresh : s.writer.firstlineSent = false) :
    (s.lineSent code).Emits (statusLineEvents (lineCode code)) (firstLine cfg code s).state := by
  simp only [firstLine, fresh, Bool.false_eq_true, if_false]
  cases known : reasonPhrase code with
  | some phrase =>
      have same : s.lineSent code = { s with writer := { s.writer with firstlineSent := true } } := by
        simp [State.lineSent, Request.afterLine, known]
      rw [same, statusLineEvents, lineCode, known]
      simp only [Option.isSome_some, if_true, known, Option.getD_some]
      exact (State.mark_emits _ _).trans (State.printf_fits _ (statusLine_short known))
  | none =>
      have same : s.lineSent code = { s with
          request := { s.request with returnCode := statusInternalError }
          writer := { s.writer with firstlineSent := true } } := by
        simp [State.lineSent, Request.afterLine, known]
      have code500 : lineCode code = 500 := by simp [lineCode, known]
      rw [same, code500]
      exact (State.mark_emits _ _).trans (State.printf_fits _ (by decide))

theorem firstLine_sent (cfg : Config) (code : UInt16) {s : State}
    (sent : s.writer.firstlineSent = true) : (firstLine cfg code s).state = s := by
  simp [firstLine, sent]

theorem ensureFirstLine_eq (cfg : Config) (code : UInt16) (s : State) :
    ensureFirstLine cfg code s = (firstLine cfg code s).state := by
  unfold ensureFirstLine
  split
  · rename_i sent
    rw [firstLine_sent cfg code sent]
  · rfl

theorem firstLine_answered (cfg : Config) (code : UInt16) (s : State) :
    s.Answered code (firstLine cfg code s).state := by
  cases sent : s.writer.firstlineSent with
  | true =>
      rw [firstLine_sent cfg code sent]
      refine ⟨rfl, rfl, rfl, by simp [Request.afterLine, sent], ⟨[], by simp, by simp⟩, ?_⟩
      intro status framed
      cases status with
      | some line => exact framed
      | none => exact absurd (framed.flag.symm.trans sent) (by simp)
  | false =>
      have emits := firstLine_fresh cfg code sent
      constructor
      · exact emits.reader
      · exact emits.json
      · exact emits.registry
      · rw [emits.request, sent]
        rfl
      · exact ⟨_, emits.writer.trace, statusLineEvents_head _⟩
      · intro status framed
        cases status with
        | some line => exact absurd (framed.flag.symm.trans sent) (by simp)
        | none =>
            constructor
            · rw [emits.writer.headersSent, emits.writer.trace]
              have unsent : s.writer.headersSent = false := framed.trace.unsent
              have trace := framed.trace
              rw [unsent] at trace
              simpa [State.lineSent, unsent] using trace.sendStatus (lineCode code)
            · rw [emits.writer.firstlineSent]
              rfl

theorem State.Emits.headersSent {s t : State} {events : List Event} (emits : s.Emits events t) :
    s.headersSent.Emits events t.headersSent :=
  ⟨⟨emits.writer.trace, rfl, emits.writer.firstlineSent⟩, emits.reader, emits.request, emits.json,
    emits.registry⟩

theorem headers_answered (cfg : Config) {code : UInt16} {s t : State}
    (block : (ensureFirstLine cfg code s).writer.headersSent = false → ∃ bytes,
      (ensureFirstLine cfg code s).headersSent.Emits (.headerBlock :: wire bytes) t)
    (skipped : (ensureFirstLine cfg code s).writer.headersSent = true →
      t = ensureFirstLine cfg code s) : s.Answered code t := by
  have line := firstLine_answered cfg code s
  rw [← ensureFirstLine_eq] at line
  cases sent : (ensureFirstLine cfg code s).writer.headersSent with
  | true =>
      rw [skipped sent]
      exact line
  | false =>
      obtain ⟨bytes, emits⟩ := block sent
      obtain ⟨events, trace, head⟩ := line.trace
      constructor
      · exact emits.reader.trans line.reader
      · exact emits.json.trans line.json
      · exact emits.registry.trans line.registry
      · exact emits.request.trans line.request
      · refine ⟨events ++ .headerBlock :: wire bytes, ?_, ?_⟩
        · rw [emits.writer.trace, ← List.append_assoc, ← trace]
          rfl
        · intro e member
          cases List.mem_append.mp member with
          | inl old => exact head e old
          | inr new =>
              cases List.mem_cons.mp new with
              | inl first => rw [first]; rfl
              | inr rest => exact wire_head bytes e rest
      · intro status framed
        exact (line.framed status framed).sendHeaders sent emits (wire_plain bytes)

theorem headerBlock_emits {s t : State} (puts : (s.mark .headerBlock).Puts t) :
    ∃ bytes, s.headersSent.Emits (.headerBlock :: wire bytes) t.headersSent := by
  obtain ⟨bytes, emits⟩ := puts
  exact ⟨bytes, ((s.mark_emits .headerBlock).trans emits).headersSent⟩

theorem sendHeaders_answered (cfg : Config) (s : State) :
    s.Answered s.request.returnCode.toUInt16 (sendHeaders cfg s).state := by
  apply headers_answered cfg
  · intro unsent
    simp only [sendHeaders, unsent, Bool.false_eq_true, if_false]
    apply headerBlock_emits
    refine State.Puts.trans ?_ (State.print_puts _ _)
    refine State.Puts.trans ?_ (State.Puts.ite (State.print_puts _ _) (State.Puts.refl _))
    refine State.Puts.trans ?_ (State.Puts.ite (State.printf_puts cfg _ _) (State.Puts.refl _))
    exact State.printf_puts cfg _ _
  · intro sent
    simp only [sendHeaders, sent, if_true]

theorem restSendHeaders_answered (cfg : Config) (code : UInt16) (type : List UInt8)
    (headers : Option (List UInt8)) (s : State) :
    s.Answered code (restSendHeaders cfg code type headers s).state := by
  apply headers_answered cfg
  · intro unsent
    simp only [restSendHeaders, unsent, Bool.false_eq_true, if_false]
    apply headerBlock_emits
    refine State.Puts.trans ?_ (State.print_puts _ _)
    apply State.Puts.trans (State.printf_puts cfg _ _)
    cases headers with
    | some headers => exact State.print_puts _ _
    | none => exact State.Puts.refl _
  · intro sent
    simp only [restSendHeaders, sent, if_true]

def authBlock (cfg : Config) : List UInt8 := (challenge cfg).flatten ++ httpEol ++ authErrorMsg

theorem sendAuthMessage_emits {cfg : Config} {s : State}
    (unsent : (ensureFirstLine cfg statusUnauthorized.toUInt16 s).writer.headersSent = false) :
    (ensureFirstLine cfg statusUnauthorized.toUInt16 s).headersSent.Emits
      (.headerBlock :: wire (authBlock cfg)) (sendAuthMessage cfg none s).state := by
  simp only [sendAuthMessage, unsent, Bool.false_eq_true, if_false, authBlock, wire_append]
  have mark := State.mark_emits (ensureFirstLine cfg statusUnauthorized.toUInt16 s) .headerBlock
  have block := State.printfAll_emits cfg
    ((ensureFirstLine cfg statusUnauthorized.toUInt16 s).mark .headerBlock) (challenge_short cfg)
  have head := ((mark.trans block).trans (State.print_emits _ httpEol)).headersSent
  have whole := head.trans (State.print_emits _ authErrorMsg)
  simpa [List.append_assoc] using whole

theorem sendAuthMessage_answered (cfg : Config) (s : State) :
    s.Answered statusUnauthorized.toUInt16 (sendAuthMessage cfg none s).state := by
  apply headers_answered cfg
  · intro unsent
    exact ⟨_, sendAuthMessage_emits unsent⟩
  · intro sent
    simp only [sendAuthMessage, sent, if_true]

end AttoHTTP
