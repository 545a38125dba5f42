import AttoHTTP.Proof.Events
import AttoHTTP.Proof.Live

namespace AttoHTTP
open Library Comp

def eventsBody (events : List (List UInt8 × List UInt8)) : List UInt8 :=
  events.flatMap fun e => eventText e.1 e.2

def Writer.written (w : Writer) : List UInt8 := w.trace.filterMap Event.byte?

theorem sendEvent_written (event data : List UInt8) (s : State) :
    (sendEvent event data s).state.writer.written = s.writer.written ++ eventText event data := by
  have emits := sendEvent_text event data s
  rw [Writer.written, emits.writer.trace, List.filterMap_append, written_wire]
  rfl

/-- No line end in it, and no space that the receiver would drop. -/
structure PlainEvent (drops : Bool) (e : List UInt8 × List UInt8) : Prop where
  event : ∀ b ∈ e.1, Library.endsLine b = false
  data : ∀ b ∈ e.2, Library.endsLine b = false
  kept : fieldText drops e.1 = e.1 ∧ fieldText drops e.2 = e.2

theorem eventText_append {event data : List UInt8} (event_plain : ∀ b ∈ event, Library.endsLine b = false)
    (data_plain : ∀ b ∈ data, Library.endsLine b = false) (rest : List UInt8) :
    parts [] false (eventText event data ++ rest) =
      eventBlock event data ++ [] :: parts [] false rest := by
  rw [eventText, List.append_assoc, List.append_assoc, eventField_parts event_named event_plain,
    eventField_parts data_named data_plain, eventBlock, List.append_assoc]
  rfl

theorem eventBlock_dataLines (drops : Bool) (event data : List UInt8) :
    dataLines drops (eventBlock event data) = [] ↔ data = [] := by
  rw [dataLines, eventBlock, List.filterMap_append, fieldBlock_other event (event_not_data event),
    fieldBlock_own, List.nil_append]
  split <;> simp_all

theorem received_events {drops : Bool} {events : List (List UInt8 × List UInt8)}
    (plain : ∀ e ∈ events, PlainEvent drops e) :
    received drops (eventsBody events) = events.filter (·.2 ≠ []) := by
  induction events with
  | nil => rfl
  | cons e events ih =>
      have first := plain e List.mem_cons_self
      have rest := ih fun e member => plain e (List.mem_cons_of_mem _ member)
      have last := parts_ne_nil [] false (eventsBody events)
      have cut : (parts [] false (eventText e.1 e.2 ++ eventsBody events)).dropLast =
          eventBlock e.1 e.2 ++ [] :: (parts [] false (eventsBody events)).dropLast := by
        rw [eventText_append first.event first.data,
          List.dropLast_append_of_ne_nil (List.cons_ne_nil _ _), List.dropLast_cons_of_ne_nil last]
      rw [received, eventsBody, List.flatMap_cons]
      change dispatch drops [] (parts [] false (eventText e.1 e.2 ++ eventsBody events)).dropLast = _
      rw [cut, dispatch_block drops (eventBlock_full e.1 e.2), List.nil_append, eventBlock_name,
        eventBlock_data, first.kept.1, first.kept.2]
      change (if _ then received drops (eventsBody events) else _ :: received drops (eventsBody events)) = _
      rw [rest]
      by_cases none : e.2 = []
      · rw [if_pos ((eventBlock_dataLines drops e.1 e.2).mpr none),
          List.filter_cons_of_neg (by simpa using none)]
      · rw [if_neg fun empty => none ((eventBlock_dataLines drops e.1 e.2).mp empty),
          List.filter_cons_of_pos (by simpa using none)]

/-! ## Runs -/

def Deed.actions {C : Type} : Deed C → List Action
  | .register call => [.register call]
  | .serve _ conn => [.serve conn]
  | .sendEvent .. => []

def Deed.events {C : Type} [DecidableEq C] (c : C) : Deed C → List (List UInt8 × List UInt8)
  | .sendEvent d event data => if d = c then [(event, data)] else []
  | _ => []

def Deed.Proper {C : Type} (cfg : Config) : Deed C → Prop
  | .register call => call.Proper cfg
  | _ => True

section Hosts

variable {C : Type} [DecidableEq C] {cfg : Config} {h h' : Host C} {deeds : List (Deed C)}

theorem setWriter_written (c d : C) (w : Writer) (h : Host C) :
    (h.setWriter c w).writers d = if d = c then w else h.writers d := rfl

theorem does_acts {deed : Deed C} (does : Does cfg h deed h') :
    Steps (Acts cfg) h.state deed.actions h'.state := by
  cases does with
  | register call => exact .cons (.register call) (.nil _)
  | serve served => exact .cons (.serve served) (.nil _)
  | sendEvent c event data => exact .nil _

theorem deeds_acts (run : Steps (Does cfg) h deeds h') :
    Steps (Acts cfg) h.state (deeds.flatMap Deed.actions) h'.state :=
  (run.shows (fun _ => True) Host.state Deed.actions (fun _ => True)
    (fun _ _ _ _ _ does => ⟨trivial, does_acts does⟩) (fun _ _ => trivial) trivial).2

theorem deeds_live {boot : State} {writers : C → Writer} (booted : Booted cfg boot)
    (proper : ∀ deed ∈ deeds, deed.Proper cfg)
    (run : Steps (Does cfg) ⟨boot.init cfg, writers⟩ deeds h) :
    Live cfg h.state ((deeds.flatMap Deed.actions).foldl (Site.act cfg) Site.init) := by
  apply live_steps booted _ (deeds_acts run)
  intro action member
  obtain ⟨deed, inside, made⟩ := List.mem_flatMap.mp member
  have allowed := proper deed inside
  cases deed with
  | register call =>
      rw [List.mem_singleton.mp made]
      exact allowed
  | serve c conn =>
      rw [List.mem_singleton.mp made]
      trivial
  | sendEvent c event data => cases made

theorem does_written {deed : Deed C} {c : C} (does : Does cfg h deed h')
    (other : ∀ conn, deed ≠ .serve c conn) :
    (h'.writers c).written = (h.writers c).written ++ eventsBody (deed.events c) := by
  cases does with
  | register call => exact (List.append_nil _).symm
  | serve served =>
      rename_i d conn t
      have away : c ≠ d := fun same => other conn (same ▸ rfl)
      change (if c = d then t.writer else h.writers c).written = _
      rw [if_neg away]
      exact (List.append_nil _).symm
  | sendEvent d event data =>
      rw [setWriter_written, Deed.events]
      by_cases same : c = d
      · rw [if_pos same, if_pos same.symm, sendEvent_written, same, eventsBody]
        simp only [List.flatMap_cons, List.flatMap_nil, List.append_nil]
      · rw [if_neg same, if_neg fun equal => same equal.symm]
        exact (List.append_nil _).symm

theorem deeds_written {c : C} (run : Steps (Does cfg) h deeds h')
    (once : ∀ conn, .serve c conn ∉ deeds) :
    (h'.writers c).written =
      (h.writers c).written ++ eventsBody (deeds.flatMap (Deed.events c)) := by
  induction run with
  | nil h => exact (List.append_nil _).symm
  | cons first others ih =>
      have now := does_written first fun conn same => once conn (same ▸ List.mem_cons_self)
      have later := ih fun conn member => once conn (List.mem_cons_of_mem _ member)
      rw [later, now, List.flatMap_cons, List.append_assoc, eventsBody, eventsBody, eventsBody,
        List.flatMap_append]

end Hosts

/-- A client that asks for the event stream receives the events that are sent to it afterwards, whatever
is registered, served and sent to others in between. Of a text that is cut off anywhere it makes the
first of them, in order. -/
theorem eventStream_received {C : Type} [DecidableEq C] {cfg : Config} (auth : cfg.auth = .none)
    {boot : State} {writers : C → Writer} {before after : List (Deed C)} {c : C} {conn : Connection}
    {h : Host C} (booted : Booted cfg boot) (proper : ∀ deed ∈ before, deed.Proper cfg)
    (run : Steps (Does cfg) ⟨boot.init cfg, writers⟩ (before ++ .serve c conn :: after) h)
    (text : RequestText) (path : 63 ∉ text.target) (short : text.target.length < cfg.urlBufferSize)
    (noPage : ((before.flatMap Deed.actions).foldl (Site.act cfg) Site.init).find cfg text.target =
      none)
    (stream : text.target =
      ((before.flatMap Deed.actions).foldl (Site.act cfg) Site.init).eventsURL)
    (body : List GetByte) (input : conn.input = sends text.render ++ body)
    (once : ∀ conn', .serve c conn' ∉ after) {drops : Bool}
    (plain : ∀ e ∈ after.flatMap (Deed.events c), PlainEvent drops e) :
    ∃ sent, (h.writers c).written = statusLineText 200 (ascii "OK") ++ eventsText ++ sent ∧
      received drops sent = (after.flatMap (Deed.events c)).filter (·.2 ≠ []) ∧
      ∀ front, front <+: sent →
        received drops front <+: (after.flatMap (Deed.events c)).filter (·.2 ≠ []) := by
  obtain ⟨m, first, rest⟩ := Steps.append_iff.mp run
  obtain ⟨m', does, later⟩ := Steps.cons_iff.mp rest
  have live := deeds_live booted proper first
  have route : ((before.flatMap Deed.actions).foldl (Site.act cfg) Site.init).route cfg text.method
      text.target = .events := by
    rw [Site.route, noPage]
    exact if_pos stream
  have start : (m'.writers c).written = statusLineText 200 (ascii "OK") ++ eventsText := by
    cases does with
    | serve served =>
        rename_i t
        have answers := (live_request auth live text path short conn body input served).toAnswers
        rw [route] at answers
        change (if c = c then t.writer else m.writers c).written = _
        rw [if_pos rfl]
        exact (answers.response _ _ rfl).2
  have whole := received_events plain
  refine ⟨eventsBody (after.flatMap (Deed.events c)), ?_, whole, fun front cut => ?_⟩
  · rw [deeds_written later once, start]
  · rw [← whole]
    exact received_front drops cut

theorem stream_plain : ascii "/stream" ≠ [] ∧
    ∀ b ∈ ascii "/stream", isBlank b = false ∧ b ≠ 0 := by decide

def streamRequest : RequestText :=
  { iconRequest with target := ascii "/stream", target_plain := stream_plain }

/-- Three events for a lamp, one of them without data; in between, another client asks for the icon
and gets an event, too. -/
def lampDeeds : List (Deed Bool) :=
  [.sendEvent false (ascii "lamp") (ascii "on"), .serve true (.ofBytes iconRequest.render),
    .sendEvent true (ascii "lamp") (ascii "dim"), .sendEvent false (ascii "lamp") [],
    .sendEvent false [] (ascii "off")]

theorem eventStream_received_lamp : ∃ (h : Host Bool) (sent : List UInt8),
    Steps (Does (.default .none)) ⟨State.boot.init (.default .none), fun _ => State.boot.writer⟩
        ([.register (.eventsURL (ascii "/stream"))] ++
          .serve false (.ofBytes streamRequest.render) :: lampDeeds) h ∧
      (h.writers false).written = statusLineText 200 (ascii "OK") ++ eventsText ++ sent ∧
      received false sent = (lampDeeds.flatMap (Deed.events false)).filter (·.2 ≠ []) ∧
      ∀ front, front <+: sent →
        received false front <+: (lampDeeds.flatMap (Deed.events false)).filter (·.2 ≠ []) := by
  let call : Registration := .eventsURL (ascii "/stream")
  let s : State := { State.boot.init (.default .none) with
    registry := (call.apply (.default .none) (State.boot.init (.default .none)).registry).2 }
  obtain ⟨t, served⟩ := execute_total (.default .none) (.ofBytes streamRequest.render) s rfl
  obtain ⟨t', served'⟩ := execute_total (.default .none) (.ofBytes iconRequest.render) t rfl
  obtain ⟨h, run⟩ : ∃ h, Steps (Does (.default .none))
      ⟨State.boot.init (.default .none), fun _ => State.boot.writer⟩
      ([.register call] ++ .serve false (.ofBytes streamRequest.render) :: lampDeeds) h :=
    ⟨_, .cons (.register call) (.cons (.serve served) (.cons (.sendEvent false _ _)
      (.cons (.serve served') (.cons (.sendEvent true _ _) (.cons (.sendEvent false _ _)
        (.cons (.sendEvent false _ _) (.nil _)))))))⟩
  have proper : ∀ deed ∈ [Deed.register (C := Bool) call], deed.Proper (.default .none) := by
    intro deed member
    rw [List.mem_singleton.mp member]
    exact ⟨by decide, by decide⟩
  have plain : ∀ e ∈ lampDeeds.flatMap (Deed.events false), PlainEvent false e := by
    intro e member
    have told : lampDeeds.flatMap (Deed.events false) =
      [(ascii "lamp", ascii "on"), (ascii "lamp", []), ([], ascii "off")] := rfl
    simp only [told, List.mem_cons, List.not_mem_nil, or_false] at member
    rcases member with rfl | rfl | rfl <;> exact ⟨by decide, by decide, rfl, rfl⟩
  obtain ⟨sent, rest⟩ := eventStream_received rfl (fun _ _ => rfl) proper run streamRequest
    (by decide) (by decide) rfl rfl [] (List.append_nil _).symm (by simp [lampDeeds]) plain
  exact ⟨h, sent, run, rest⟩

end AttoHTTP
