import AttoHTTP.Proof.Events
import AttoHTTP.Proof.Formatting
import AttoHTTP.Proof.Serving

/-!
# The counts that the output functions return

A count is the sum of what `attoHTTPSetByte` returned for the bytes that are counted. It differs
from the number of bytes written by the failed writes that lower it and by the status line that
the header functions send without counting it, modulo the width of the result.
-/

namespace AttoHTTP
open Library Comp

/-! ## The results of the writes -/

def gave (r : Int16) (results : Nat → Int16) (n : Nat) : Nat :=
  (List.range n).countP fun i => results i == r

theorem gave_zero (r : Int16) (results : Nat → Int16) : gave r results 0 = 0 := rfl

theorem gave_succ (r : Int16) (results : Nat → Int16) (n : Nat) :
    gave r results (n + 1) = (if results 0 = r then 1 else 0) + gave r (fun i => results (i + 1)) n := by
  rw [gave, List.range_succ_eq_map, List.countP_cons, List.countP_map, Nat.add_comm]
  congr 1
  simp

theorem gave_add (r : Int16) (results : Nat → Int16) (n m : Nat) :
    gave r results (n + m) = gave r results n + gave r (fun i => results (i + n)) m := by
  induction n generalizing results with
  | zero => simp [gave_zero]
  | succ n ih =>
      rw [Nat.succ_add, gave_succ, gave_succ, ih]
      simp only [Nat.add_assoc]

/-- What `attoHTTPSetByte` returns in the wrappers. -/
def Result (r : Int16) : Prop := r = 1 ∨ r = 0 ∨ r = -1

def gained (results : Nat → Int16) (n : Nat) : Int :=
  (gave 1 results n : Int) - gave (-1) results n

theorem gained_succ {results : Nat → Int16} (known : Result (results 0)) (n : Nat) :
    gained results (n + 1) = (results 0).toInt + gained (fun i => results (i + 1)) n := by
  rw [gained, gained, gave_succ, gave_succ]
  rcases known with one | zero | minus
  · rw [one]
    simp
    omega
  · rw [zero]
    simp
  · rw [minus]
    simp
    omega

theorem gained_add (results : Nat → Int16) (n m : Nat) :
    gained results (n + m) = gained results n + gained (fun i => results (i + n)) m := by
  rw [gained, gained, gained, gave_add, gave_add]
  omega

structure Writer.Spends (w : Writer) (n : Nat) (w' : Writer) : Prop where
  results : w'.results = fun i => w.results (i + n)
  trace : (w'.trace.filterMap Event.byte?).length = (w.trace.filterMap Event.byte?).length + n

theorem Writer.Spends.trans {w w' w'' : Writer} {n m : Nat} (first : w.Spends n w')
    (second : w'.Spends m w'') : w.Spends (n + m) w'' := by
  constructor
  · rw [second.results, first.results]
    funext i
    exact congrArg w.results (by omega)
  · rw [second.trace, first.trace, Nat.add_assoc]

theorem Writer.Spends.refl (w : Writer) : w.Spends 0 w := ⟨rfl, rfl⟩

theorem setByte_spends (b : UInt8) (w : Writer) : w.Spends 1 (setByte b w).2 :=
  ⟨rfl, by simp [setByte, List.filterMap_append, Event.byte?]⟩

theorem write_spends (bytes : List UInt8) (w : Writer) :
    w.Spends bytes.length (write bytes w).2 := by
  induction bytes generalizing w with
  | nil => exact Writer.Spends.refl w
  | cons b bytes ih =>
      have first := (setByte_spends b w).trans (ih (setByte b w).2)
      rw [Nat.add_comm] at first
      exact first

theorem setBytes_writer (bytes : List UInt8) (w : Writer) :
    (setBytes bytes w).2 = (write bytes w).2 := by
  induction bytes generalizing w with
  | nil => rfl
  | cons b bytes ih => exact ih (setByte b w).2

theorem setBytes_spends (bytes : List UInt8) (w : Writer) :
    w.Spends bytes.length (setBytes bytes w).2 := by
  rw [setBytes_writer]
  exact write_spends bytes w

theorem write_count {bytes : List UInt8} {w : Writer} (known : ∀ i, Result (w.results i)) :
    (write bytes w).1 = UInt32.ofInt (gained w.results bytes.length) := by
  induction bytes generalizing w with
  | nil => rfl
  | cons b bytes ih =>
      have later := @ih (setByte b w).2 fun i => known (i + 1)
      have first : (w.results 0).toInt8.toInt32.toUInt32 = UInt32.ofInt (w.results 0).toInt := by
        rcases known 0 with one | zero | minus
        · rw [one]; rfl
        · rw [zero]; rfl
        · rw [minus]; rfl
      rw [List.length_cons, gained_succ (known 0), UInt32.ofInt_add, ← first, write]
      exact congrArg (_ + ·) later

theorem setBytes_count {bytes : List UInt8} {w : Writer} (known : ∀ i, Result (w.results i)) :
    (setBytes bytes w).1 = UInt16.ofInt (gained w.results bytes.length) := by
  induction bytes generalizing w with
  | nil => rfl
  | cons b bytes ih =>
      have later := @ih (setByte b w).2 fun i => known (i + 1)
      have first : (w.results 0).toUInt16 = UInt16.ofInt (w.results 0).toInt := by
        rcases known 0 with one | zero | minus
        · rw [one]; rfl
        · rw [zero]; rfl
        · rw [minus]; rfl
      rw [List.length_cons, gained_succ (known 0), UInt16.ofInt_add, ← first, setBytes]
      exact congrArg (_ + ·) later

theorem toUInt16_ofInt (x : Int) : (UInt32.ofInt x).toUInt16 = UInt16.ofInt x := by
  apply UInt16.toNat.inj
  simp [UInt32.ofInt, UInt16.ofInt]
  omega

/-! ## The counts of the functions -/

/-- So many bytes have been handed over, and the count is what was gained by it. -/
structure State.Tallies (s : State) (n : Nat) (count : UInt16) (t : State) : Prop where
  spends : s.writer.Spends n t.writer
  count : (∀ i, Result (s.writer.results i)) → count = UInt16.ofInt (gained s.writer.results n)

theorem State.Tallies.trans {s t u : State} {n m : Nat} {a b : UInt16} (first : s.Tallies n a t)
    (second : t.Tallies m b u) : s.Tallies (n + m) (a + b) u := by
  refine ⟨first.spends.trans second.spends, fun known => ?_⟩
  have later := second.count fun i => by
    rw [first.spends.results]
    exact known (i + n)
  rw [first.spends.results] at later
  rw [gained_add, UInt16.ofInt_add, first.count known, later]

theorem State.Tallies.refl (s : State) : s.Tallies 0 0 s := ⟨Writer.Spends.refl _, fun _ => rfl⟩

theorem State.Tallies.ite {p : Prop} [Decidable p] {s : State} {n : Nat} {a : Sent UInt16}
    (yes : s.Tallies n a.count a.state) :
    s.Tallies (if p then n else 0) (if p then a else ⟨0, s⟩).count (if p then a else ⟨0, s⟩).state := by
  by_cases h : p
  · simp only [if_pos h]
    exact yes
  · simp only [if_neg h]
    exact .refl s

theorem mark_tallies (s : State) {e : Event} (none : e.byte? = none) : s.Tallies 0 0 (s.mark e) := by
  refine ⟨⟨rfl, ?_⟩, fun _ => rfl⟩
  simp [State.mark, Writer.mark, List.filterMap_append, none]

theorem headersSent_tallies (s : State) : s.Tallies 0 0 s.headersSent :=
  ⟨⟨rfl, rfl⟩, fun _ => rfl⟩

theorem print_tallies (s : State) (text : List UInt8) :
    s.Tallies text.length (s.print text).count.toUInt16 (s.print text).state := by
  refine ⟨write_spends text s.writer, fun known => ?_⟩
  rw [← toUInt16_ofInt, ← write_count known]
  rfl

theorem vprintf_write (size : Nat) (expansion : List UInt8) (w : Writer) :
    ∃ bytes stack, bytes.length = printfCount size expansion.length ∧
      (vprintf size expansion w).1 = (write bytes { w with stack := stack }).1.toUInt16 ∧
      (vprintf size expansion w).2 = (write bytes { w with stack := stack }).2 := by
  simp only [vprintf, printfCount]
  split
  · rename_i full
    exact ⟨_, _, by rw [Mem.length_bytes, full], rfl, rfl⟩
  · exact ⟨_, _, Mem.length_bytes _ _, rfl, rfl⟩

theorem printf_tallies (cfg : Config) (s : State) (expansion : List UInt8) :
    s.Tallies (printfCount cfg.printfBufferSize expansion.length) (s.printf cfg expansion).count
      (s.printf cfg expansion).state := by
  obtain ⟨bytes, stack, length, count, writer⟩ := vprintf_write cfg.printfBufferSize expansion s.writer
  rw [← length]
  constructor
  · have spends := write_spends bytes { s.writer with stack := stack }
    rw [← writer] at spends
    exact ⟨spends.results, spends.trace⟩
  · intro known
    rw [← toUInt16_ofInt, ← @write_count bytes { s.writer with stack := stack } known]
    exact count

theorem printfCount_fits {cfg : Config} {n : Nat} (short : n < 128) :
    printfCount cfg.printfBufferSize n = n := by
  have size := cfg.printf_ge
  rw [printfCount, Nat.mod_eq_of_lt (by omega), if_neg (by omega)]

theorem printf_tallies_short (cfg : Config) (s : State) {expansion : List UInt8}
    (short : expansion.length < 128) :
    s.Tallies expansion.length (s.printf cfg expansion).count (s.printf cfg expansion).state := by
  have tallies := printf_tallies cfg s expansion
  rwa [printfCount_fits short] at tallies

def lineText (code : UInt16) : List UInt8 :=
  statusLineText (lineCode code) ((reasonPhrase code).getD (ascii "Internal Error"))

theorem line_tallies (cfg : Config) {s t : State}
    (sent : t.writer = { s.writer with firstlineSent := true }) (code : UInt16) {text : List UInt8}
    (short : text.length < 128) :
    s.Tallies text.length ((t.mark (.statusLine code)).printf cfg text).count
      ((t.mark (.statusLine code)).printf cfg text).state := by
  have printed := (mark_tallies t (e := .statusLine code) rfl).trans
    (printf_tallies_short cfg (t.mark (.statusLine code)) short)
  rw [Nat.zero_add, UInt16.zero_add] at printed
  have results : t.writer.results = s.writer.results := by rw [sent]
  have trace : t.writer.trace = s.writer.trace := by rw [sent]
  refine ⟨⟨?_, ?_⟩, fun known => ?_⟩
  · rw [printed.spends.results, results]
  · rw [printed.spends.trace, trace]
  · rw [printed.count (by rw [results]; exact known), results]

theorem firstLine_tallies (cfg : Config) (code : UInt16) (s : State) :
    s.Tallies (if s.writer.firstlineSent then 0 else (lineText code).length)
      (firstLine cfg code s).count (firstLine cfg code s).state := by
  cases sent : s.writer.firstlineSent with
  | true =>
      simp only [firstLine, sent, if_true]
      exact .refl s
  | false =>
      simp only [firstLine, sent, Bool.false_eq_true, if_false]
      cases known : reasonPhrase code with
      | some phrase =>
          have text : lineText code = statusLineText code phrase := by
            simp [lineText, lineCode, known]
          rw [text]
          exact line_tallies cfg rfl code (statusLine_short known)
      | none =>
          have text : lineText code = statusLineText 500 (ascii "Internal Error") := by
            simp [lineText, lineCode, known]
          rw [text]
          exact line_tallies cfg rfl 500 (by decide)

theorem ensureFirstLine_spends (cfg : Config) (code : UInt16) (s : State) :
    s.writer.Spends (if s.writer.firstlineSent then 0 else (lineText code).length)
      (ensureFirstLine cfg code s).writer := by
  rw [ensureFirstLine_eq]
  exact (firstLine_tallies cfg code s).spends

theorem sendHeaders_tallies {cfg : Config} {s : State}
    (unsent : (ensureFirstLine cfg s.request.returnCode.toUInt16 s).writer.headersSent = false) :
    (ensureFirstLine cfg s.request.returnCode.toUInt16 s).Tallies
      (headerText cfg (ensureFirstLine cfg s.request.returnCode.toUInt16 s).request.contenttype
        (ensureFirstLine cfg s.request.returnCode.toUInt16 s).request.contentlength).length
      (sendHeaders cfg s).count (sendHeaders cfg s).state := by
  simp only [sendHeaders, unsent, Bool.false_eq_true, if_false, headerText, List.length_append]
  generalize ensureFirstLine cfg s.request.returnCode.toUInt16 s = t
  have type := (mark_tallies t (e := .headerBlock) rfl).trans
    (printf_tallies_short cfg _ (contentTypeLine_short t.request.contenttype))
  have size (u : State) := State.Tallies.ite (p := 0 < t.request.contentlength)
    (printf_tallies_short cfg u (contentLengthLine_short t.request.contentlength))
  have gzip (u : State) : u.Tallies (if cfg.gzipPages then gzipLine else []).length
      (if cfg.gzipPages then u.print gzipLine else ⟨0, u⟩).count.toUInt16
      (if cfg.gzipPages then u.print gzipLine else ⟨0, u⟩).state := by
    split
    · exact print_tallies u gzipLine
    · exact .refl u
  have whole := (((type.trans (size _)).trans (gzip _)).trans (print_tallies _ httpEol)).trans
    (headersSent_tallies _)
  simp only [Nat.zero_add, UInt16.zero_add, Nat.add_zero, UInt16.add_zero,
    apply_ite List.length, List.length_nil] at whole ⊢
  exact whole

theorem restSendHeaders_tallies {cfg : Config} {code : UInt16} (type : List UInt8)
    (headers : Option (List UInt8)) {s : State}
    (unsent : (ensureFirstLine cfg code s).writer.headersSent = false) :
    (ensureFirstLine cfg code s).Tallies
      (printfCount cfg.printfBufferSize (contentTypeLine type).length + (headers.getD []).length +
        httpEol.length)
      (restSendHeaders cfg code type headers s).count (restSendHeaders cfg code type headers s).state := by
  simp only [restSendHeaders, unsent, Bool.false_eq_true, if_false]
  generalize ensureFirstLine cfg code s = t
  have first := (mark_tallies t (e := .headerBlock) rfl).trans
    (printf_tallies cfg _ (contentTypeLine type))
  cases headers with
  | none =>
      have whole := (first.trans (print_tallies _ httpEol)).trans (headersSent_tallies _)
      simp only [Nat.zero_add, UInt16.zero_add, Nat.add_zero, UInt16.add_zero] at whole
      simpa using whole
  | some headers =>
      have whole := ((first.trans (print_tallies _ headers)).trans (print_tallies _ httpEol)).trans
        (headersSent_tallies _)
      simp only [Nat.zero_add, UInt16.zero_add, Nat.add_zero, UInt16.add_zero] at whole
      exact whole

/-! ## The counts of the calls -/

/-- The width of the result and its value, for the calls that return a count. -/
def ApiCall.returned? : (op : ApiCall) → op.Reply → Option (Nat × Nat)
  | .firstLine _, (count : UInt16) => some (16, count.toNat)
  | .sendHeaders, (count : UInt16) => some (16, count.toNat)
  | .restSendHeaders .., (count : UInt16) => some (16, count.toNat)
  | .print _, (count : UInt32) => some (32, count.toNat)
  | .printf _, (count : UInt16) => some (16, count.toNat)
  | .write _, (count : UInt32) => some (32, count.toNat)
  | .sendEvent .., (count : UInt16) => some (16, count.toNat)
  | _, _ => none

/-- The bytes that are sent first and not counted. -/
def ApiCall.uncounted (s : State) : ApiCall → Nat
  | .sendHeaders =>
      if s.writer.firstlineSent then 0 else (lineText s.request.returnCode.toUInt16).length
  | .restSendHeaders code _ _ => if s.writer.firstlineSent then 0 else (lineText code).length
  | _ => 0

/-- The bytes sent after them. -/
def ApiCall.counted (cfg : Config) (s : State) : ApiCall → Nat
  | .firstLine code => if s.writer.firstlineSent then 0 else (lineText code).length
  | .sendHeaders =>
      if s.writer.headersSent then 0
      else (headerText cfg s.request.contenttype s.request.contentlength).length
  | .restSendHeaders _ type headers =>
      if s.writer.headersSent then 0
      else printfCount cfg.printfBufferSize (contentTypeLine type).length +
        (headers.getD []).length + httpEol.length
  | .print text => text.length
  | .printf expansion => printfCount cfg.printfBufferSize expansion.length
  | .write bytes => bytes.length
  | .sendEvent event data => (eventText event data).length
  | _ => 0

theorem toNat_ofInt16 (x : Int) : ((UInt16.ofInt x).toNat : Int) = x % 2 ^ 16 := by
  simp [UInt16.ofInt]
  omega

theorem toNat_ofInt32 (x : Int) : ((UInt32.ofInt x).toNat : Int) = x % 2 ^ 32 := by
  simp [UInt32.ofInt]
  omega

theorem headers_count {cfg : Config} {code : UInt16} {s : State} {a : Sent UInt16} {n : Nat}
    (block : (ensureFirstLine cfg code s).writer.headersSent = false →
      (ensureFirstLine cfg code s).Tallies n a.count a.state)
    (skipped : (ensureFirstLine cfg code s).writer.headersSent = true →
      a = ⟨0, ensureFirstLine cfg code s⟩) :
    s.writer.Spends ((if s.writer.firstlineSent then 0 else (lineText code).length) +
        if s.writer.headersSent then 0 else n) a.state.writer ∧
      ((∀ i, Result (s.writer.results i)) → a.count = UInt16.ofInt (gained
        (fun i => s.writer.results (i + if s.writer.firstlineSent then 0 else (lineText code).length))
        (if s.writer.headersSent then 0 else n))) := by
  have line := ensureFirstLine_spends cfg code s
  have kept : (ensureFirstLine cfg code s).writer.headersSent = s.writer.headersSent := by
    cases sent : s.writer.firstlineSent with
    | true => rw [ensureFirstLine_eq, firstLine_sent cfg code sent]
    | false =>
        rw [ensureFirstLine_eq, (firstLine_fresh cfg code sent).writer.headersSent]
        rfl
  rw [kept] at block skipped
  generalize (if s.writer.firstlineSent then 0 else (lineText code).length) = u at line ⊢
  cases sent : s.writer.headersSent with
  | true =>
      rw [skipped sent]
      exact ⟨line, fun _ => rfl⟩
  | false =>
      have tallies := block sent
      refine ⟨line.trans tallies.spends, fun known => ?_⟩
      rw [tallies.count fun i => by rw [line.results]; exact known (i + u), line.results]
      rfl

theorem Request.afterLine_kept (sent : Bool) (code : UInt16) (q : Request) :
    (q.afterLine sent code).contenttype = q.contenttype ∧
      (q.afterLine sent code).contentlength = q.contentlength := by
  unfold Request.afterLine
  split <;> exact ⟨rfl, rfl⟩

variable {cfg : Config} {s : State} {op : ApiCall} {p : op.Reply × State} {width value : Nat}

theorem apply_count (h : (apply cfg s op).Returns p) (count : op.returned? p.1 = some (width, value)) :
    s.writer.Spends (op.uncounted s + op.counted cfg s) p.2.writer ∧
      ((∀ i, Result (s.writer.results i)) → (value : Int) =
        gained (fun i => s.writer.results (i + op.uncounted s)) (op.counted cfg s) % 2 ^ width) := by
  have plain {n : Nat} {c : UInt16} {t : State} (tallies : s.Tallies n c t) :
      s.writer.Spends (0 + n) t.writer ∧ ((∀ i, Result (s.writer.results i)) →
        (c.toNat : Int) = gained (fun i => s.writer.results (i + 0)) n % 2 ^ 16) := by
    rw [Nat.zero_add]
    refine ⟨tallies.spends, fun known => ?_⟩
    rw [tallies.count known, toNat_ofInt16]
    rfl
  have sent (bytes : List UInt8) : s.writer.Spends (0 + bytes.length) (s.write bytes).state.writer ∧
      ((∀ i, Result (s.writer.results i)) → ((s.write bytes).count.toNat : Int) =
        gained (fun i => s.writer.results (i + 0)) bytes.length % 2 ^ 32) := by
    rw [Nat.zero_add]
    refine ⟨write_spends bytes s.writer, fun known => ?_⟩
    rw [State.write, write_count known, toNat_ofInt32]
    rfl
  cases op with
  | firstLine code =>
      rw [apply, returns_pure] at h
      subst h
      cases count
      exact plain (firstLine_tallies cfg code s)
  | sendHeaders =>
      rw [apply, returns_pure] at h
      subst h
      cases count
      have request := (firstLine_answered cfg s.request.returnCode.toUInt16 s).request
      rw [← ensureFirstLine_eq] at request
      have kept := s.request.afterLine_kept s.writer.firstlineSent s.request.returnCode.toUInt16
      rw [← request] at kept
      obtain ⟨spends, value⟩ := @headers_count cfg _ s (sendHeaders cfg s)
        (headerText cfg s.request.contenttype s.request.contentlength).length
        (fun unsent => by rw [← kept.1, ← kept.2]; exact sendHeaders_tallies unsent)
        (fun sent => by simp only [sendHeaders, sent, if_true])
      refine ⟨spends, fun known => ?_⟩
      rw [value known, toNat_ofInt16]
      rfl
  | restSendHeaders code type headers =>
      rw [apply, returns_pure] at h
      subst h
      cases count
      obtain ⟨spends, value⟩ := @headers_count cfg code s
        (restSendHeaders cfg code type headers s) _ (restSendHeaders_tallies type headers)
        (fun sent => by simp only [restSendHeaders, sent, if_true])
      refine ⟨spends, fun known => ?_⟩
      rw [value known, toNat_ofInt16]
      rfl
  | print text =>
      rw [apply, returns_pure] at h
      subst h
      cases count
      exact sent text
  | printf expansion =>
      rw [apply, returns_pure] at h
      subst h
      cases count
      exact plain (printf_tallies cfg s expansion)
  | write bytes =>
      rw [apply, returns_pure] at h
      subst h
      cases count
      exact sent bytes
  | sendEvent event data =>
      rw [apply, returns_pure] at h
      subst h
      cases count
      exact plain ⟨setBytes_spends _ s.writer, setBytes_count⟩
  | parseParam name nameLen value valueLen => cases count
  | getRawParamChar c => cases count

theorem wrapped_eq_iff {value size n m u : Nat} (positive : 0 < size)
    (sum : (value : Int) = ((n : Int) - m) % size) :
    value = u + n ↔ size ∣ u + m ∧ u + n < size := by
  constructor
  · intro equal
    have less := Int.emod_lt_of_pos ((n : Int) - m) (show (0 : Int) < size by omega)
    have parts := Int.emod_add_mul_ediv ((n : Int) - m) size
    refine ⟨?_, by omega⟩
    rw [← Int.natCast_dvd_natCast]
    refine ⟨-(((n : Int) - m) / size), ?_⟩
    rw [Int.mul_neg]
    push_cast
    omega
  · rintro ⟨⟨k, multiple⟩, less⟩
    have same : ((n : Int) - m) % size = ((u + n : Nat) : Int) % size := by
      have apart : (n : Int) - m = ((u + n : Nat) : Int) + size * -(k : Int) := by
        have cast : ((u + m : Nat) : Int) = size * (k : Int) := by
          rw [multiple]
          push_cast
          rfl
        rw [Int.mul_neg, ← cast]
        push_cast
        omega
      rw [apart, Int.add_mul_emod_self_left]
    rw [same, Int.emod_eq_of_lt (by omega) (by omega)] at sum
    omega

/-- The count is the number of bytes written exactly when the writes that are not counted and the
failures that are cancel out in the width of the result. -/
theorem counts_true_iff (known : ∀ i, Result (s.writer.results i)) (h : (apply cfg s op).Returns p)
    (count : op.returned? p.1 = some (width, value)) :
    s.writer.Spends (op.uncounted s + op.counted cfg s) p.2.writer ∧
      (value = gave 1 s.writer.results (op.uncounted s + op.counted cfg s) ↔
        2 ^ width ∣ gave 1 s.writer.results (op.uncounted s) +
            gave (-1) (fun i => s.writer.results (i + op.uncounted s)) (op.counted cfg s) ∧
          gave 1 s.writer.results (op.uncounted s + op.counted cfg s) < 2 ^ width) := by
  obtain ⟨spends, total⟩ := apply_count h count
  refine ⟨spends, ?_⟩
  have sum := total known
  rw [gained] at sum
  rw [gave_add]
  exact wrapped_eq_iff (Nat.two_pow_pos width) (by push_cast; exact sum)

def mixedResults (n : Nat) : Int16 := if n % 3 = 0 then 1 else if n % 3 = 1 then 0 else -1

def mixedState : State :=
  { State.boot with writer := { State.boot.writer with results := mixedResults } }

/-- Ten bytes of the status line are out and not counted, and 17 failures are. -/
theorem counts_true_headers :
    ∃ p : UInt16 × State, (apply (.default .none) mixedState .sendHeaders).Returns p ∧
      mixedState.writer.Spends (29 + 49) p.2.writer ∧
      p.1.toNat ≠ gave 1 mixedResults (29 + 49) := by
  have known (i : Nat) : Result (mixedState.writer.results i) := by
    change Result (if i % 3 = 0 then 1 else if i % 3 = 1 then 0 else -1)
    split
    · exact .inl rfl
    · split
      · exact .inr (.inl rfl)
      · exact .inr (.inr rfl)
  obtain ⟨spends, exact_iff⟩ := @counts_true_iff (.default .none) mixedState .sendHeaders
    (sendHeaders (.default .none) mixedState |> fun p => (p.count, p.state)) 16 _ known
    (returns_pure.mpr rfl) rfl
  refine ⟨_, returns_pure.mpr rfl, spends, fun equal => ?_⟩
  exact absurd (exact_iff.mp equal).1 (by decide +kernel)

def brokenState : State :=
  { State.boot with writer := { State.boot.writer with results := fun _ => -1 } }

theorem counts_false :
    ∃ p, (apply (.default .none) brokenState (.write [97])).Returns p ∧ p.1.toNat = 2 ^ 32 - 1 ∧
      gave 1 brokenState.writer.results 1 = 0 :=
  ⟨_, returns_pure.mpr rfl, rfl, rfl⟩

end AttoHTTP
