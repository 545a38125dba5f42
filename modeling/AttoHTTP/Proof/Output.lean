import AttoHTTP.Model.Output

/-!
# What the output functions emit

Every output function appends to the trace and touches little else; a text that fits the buffer
of `attoHTTPvprintf` arrives unchanged.
-/

namespace AttoHTTP
open Library

def wire (bytes : List UInt8) : List Event := bytes.map .wrote

@[simp]
theorem wire_nil : wire [] = [] := rfl

theorem wire_append (a b : List UInt8) : wire (a ++ b) = wire a ++ wire b := List.map_append ..

/-- The trace grows by these events; the flags stay. -/
structure Writer.Adds (w : Writer) (events : List Event) (w' : Writer) : Prop where
  trace : w'.trace = w.trace ++ events
  headersSent : w'.headersSent = w.headersSent
  firstlineSent : w'.firstlineSent = w.firstlineSent

theorem Writer.Adds.refl (w : Writer) : w.Adds [] w := ⟨by simp, rfl, rfl⟩

theorem Writer.Adds.trans {w w' w'' : Writer} {a b : List Event} (first : w.Adds a w')
    (second : w'.Adds b w'') : w.Adds (a ++ b) w'' :=
  ⟨by rw [second.trace, first.trace, List.append_assoc],
    second.headersSent.trans first.headersSent, second.firstlineSent.trans first.firstlineSent⟩

theorem mark_adds (w : Writer) (e : Event) : w.Adds [e] (w.mark e) := ⟨rfl, rfl, rfl⟩

theorem write_adds (bytes : List UInt8) (w : Writer) : w.Adds (wire bytes) (write bytes w).2 := by
  induction bytes generalizing w with
  | nil => exact Writer.Adds.refl w
  | cons b bytes ih =>
      have first : w.Adds [.wrote b] (setByte b w).2 := ⟨rfl, rfl, rfl⟩
      exact first.trans (ih (setByte b w).2)

theorem setBytes_adds (bytes : List UInt8) (w : Writer) : w.Adds (wire bytes) (setBytes bytes w).2 := by
  induction bytes generalizing w with
  | nil => exact Writer.Adds.refl w
  | cons b bytes ih =>
      have first : w.Adds [.wrote b] (setByte b w).2 := ⟨rfl, rfl, rfl⟩
      exact first.trans (ih (setByte b w).2)

theorem stack_adds {w w' : Writer} {stack : Nat → Mem} {events : List Event}
    (h : Writer.Adds { w with stack := stack } events w') : w.Adds events w' :=
  ⟨h.trace, h.headersSent, h.firstlineSent⟩

theorem vprintf_adds (size : Nat) (expansion : List UInt8) (w : Writer) :
    ∃ bytes, w.Adds (wire bytes) (vprintf size expansion w).2 := by
  simp only [vprintf]
  split <;> exact ⟨_, stack_adds (write_adds _ _)⟩

theorem vsnprintf_bytes {buffer : Mem} {size : Nat} {expansion : List UInt8}
    (fits : expansion.length < size) :
    (vsnprintf buffer size expansion).bytes expansion.length = expansion := by
  apply List.ext_getElem
  · simp
  · intro i left right
    have inside : i < size - 1 ∧ i < expansion.length := by omega
    simp [Mem.bytes, vsnprintf, inside]

theorem vprintf_fits {cfg : Config} {expansion : List UInt8}
    (fits : expansion.length < cfg.printfBufferSize) (w : Writer) :
    w.Adds (wire expansion) (vprintf cfg.printfBufferSize expansion w).2 := by
  have short : expansion.length % 2 ^ 16 = expansion.length :=
    Nat.mod_eq_of_lt (fits.trans cfg.printf_lt)
  simp only [vprintf, short, if_neg fits.ne, vsnprintf_bytes fits]
  exact stack_adds (write_adds expansion _)

theorem fits_of_le {cfg : Config} {expansion : List UInt8} (short : expansion.length < 128) :
    expansion.length < cfg.printfBufferSize :=
  short.trans_le cfg.printf_ge

/-! ## The whole state -/

/-- Nothing but the writer differs, which has emitted these events. -/
structure State.Emits (s : State) (events : List Event) (s' : State) : Prop where
  writer : s.writer.Adds events s'.writer
  reader : s'.reader = s.reader
  request : s'.request = s.request
  json : s'.json = s.json
  registry : s'.registry = s.registry

theorem State.Emits.refl (s : State) : s.Emits [] s := ⟨Writer.Adds.refl _, rfl, rfl, rfl, rfl⟩

theorem State.Emits.trans {s s' s'' : State} {a b : List Event} (first : s.Emits a s')
    (second : s'.Emits b s'') : s.Emits (a ++ b) s'' :=
  ⟨first.writer.trans second.writer, second.reader.trans first.reader,
    second.request.trans first.request, second.json.trans first.json,
    second.registry.trans first.registry⟩

theorem State.mark_emits (s : State) (e : Event) : s.Emits [e] (s.mark e) :=
  ⟨mark_adds _ e, rfl, rfl, rfl, rfl⟩

theorem State.write_emits (s : State) (bytes : List UInt8) :
    s.Emits (wire bytes) (s.write bytes).state :=
  ⟨write_adds bytes s.writer, rfl, rfl, rfl, rfl⟩

theorem State.print_emits (s : State) (text : List UInt8) :
    s.Emits (wire text) (s.print text).state :=
  s.write_emits text

theorem State.printf_emits (cfg : Config) (s : State) (expansion : List UInt8) :
    ∃ bytes, s.Emits (wire bytes) (s.printf cfg expansion).state := by
  obtain ⟨bytes, adds⟩ := vprintf_adds cfg.printfBufferSize expansion s.writer
  exact ⟨bytes, adds, rfl, rfl, rfl, rfl⟩

theorem State.printf_fits {cfg : Config} (s : State) {expansion : List UInt8}
    (short : expansion.length < 128) : s.Emits (wire expansion) (s.printf cfg expansion).state :=
  ⟨vprintf_fits (fits_of_le short) s.writer, rfl, rfl, rfl, rfl⟩

theorem State.printfAll_emits (cfg : Config) {texts : List (List UInt8)} (s : State)
    (short : ∀ text ∈ texts, text.length < 128) :
    s.Emits (wire texts.flatten) (s.printfAll cfg texts).state := by
  induction texts generalizing s with
  | nil => exact State.Emits.refl s
  | cons text texts ih =>
      rw [List.flatten_cons, wire_append]
      exact (s.printf_fits (short text (by simp))).trans
        (ih _ fun text ht => short text (by simp [ht]))

theorem sendEvent_emits (event data : List UInt8) (s : State) :
    ∃ bytes, s.Emits (wire bytes) (sendEvent event data s).state :=
  ⟨_, setBytes_adds _ s.writer, rfl, rfl, rfl, rfl⟩

def State.Puts (s t : State) : Prop := ∃ bytes, s.Emits (wire bytes) t

theorem State.Puts.refl (s : State) : s.Puts s := ⟨[], State.Emits.refl s⟩

theorem State.Puts.trans {s t u : State} (first : s.Puts t) (second : t.Puts u) : s.Puts u := by
  obtain ⟨a, first⟩ := first
  obtain ⟨b, second⟩ := second
  exact ⟨a ++ b, by rw [wire_append]; exact first.trans second⟩

theorem State.Puts.ite {α : Type} {p : Prop} [Decidable p] {s : State} {a b : Sent α}
    (yes : s.Puts a.state) (no : s.Puts b.state) : s.Puts (if p then a else b).state := by
  split
  · exact yes
  · exact no

theorem State.print_puts (s : State) (text : List UInt8) : s.Puts (s.print text).state :=
  ⟨text, s.print_emits text⟩

theorem State.printf_puts (cfg : Config) (s : State) (expansion : List UInt8) :
    s.Puts (s.printf cfg expansion).state :=
  s.printf_emits cfg expansion

theorem challenge_short (cfg : Config) : ∀ text ∈ challenge cfg, text.length < 128 := by
  cases h : cfg.auth <;> simp only [challenge, h] <;> decide

theorem contentTypeLine_short (type : MimeType) : (contentTypeLine type.name).length < 128 := by
  cases type <;> decide

end AttoHTTP
