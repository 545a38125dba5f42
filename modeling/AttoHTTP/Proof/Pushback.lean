import AttoHTTP.Model.Server
import AttoHTTP.Proof.Delivery

/-!
# What is pushed back

The helpers push back what their variable holds, whether the last read has stored it or not. The
bytes reported to their callers are the stream as long as they stop at a byte that they have read.
-/

namespace AttoHTTP
open Library Comp

def Got.reported (g : Got) : List UInt8 := if 0 < g.ret then [g.c] else []

inductive ReadCall
  | read (c : UInt8)
  | space
  | eol
deriving DecidableEq

/-- The reader and what it has delivered: `log` holds the bytes reported as read, without one that
has been pushed back, and `ended` says that a line has ended twice. -/
structure Reading where
  reader : Reader
  request : Request
  log : List UInt8
  ended : Bool

def spaceReports (l : List Got) : List UInt8 := l.flatMap fun g => (readC g.c g.reader).reported

def eolReports (l : List EolLoop) : List UInt8 := l.flatMap fun t => (readC t.c t.reader).reported

/-- One call. The last byte that a helper has read is the one it pushes back. -/
inductive Pulls : ReadCall → Reading → Reading → Prop
  | read {s : Reading} {c : UInt8} : Pulls (.read c) s
      { s with reader := (readC c s.reader).reader, log := s.log ++ (readC c s.reader).reported }
  | space {s : Reading} {t : Scanned} {l : List Got} (run : (parseSpace s.reader).Returns t)
      (rounds : Rounds parseSpaceStep ⟨1, s.reader.frame 0, s.reader.enter⟩ l) : Pulls .space s
      { s with reader := t.reader, log := s.log ++ (spaceReports l).dropLast }
  | eol {s : Reading} {p : Parsed} {l : List EolLoop}
      (run : (parseEOL s.reader s.request).Returns p)
      (rounds : Rounds parseEOLStep ⟨1, s.reader.frame 0, 0, s.reader.enter⟩ l) : Pulls .eol s
      { reader := p.reader, request := p.request, log := s.log ++ (eolReports l).dropLast,
        ended := s.ended || decide (2 ≤ (eolReports l).count 10) }

/-- What has been reported and what is still to come are the stream, and the headers are done only
after two newlines in one call. -/
structure Reading.Conserves (stream : List UInt8) (s : Reading) : Prop where
  atEnd : s.reader.atEnd = .timeout
  whole : ∃ rest, s.reader.pending = sends rest ∧ s.log ++ rest = stream
  done : s.request.headersDone = true → s.ended = true

/-! ## What the helpers read -/

def spaceReads : List UInt8 → List UInt8
  | [] => []
  | b :: rest => b :: if isBlank b then spaceReads rest else []

/-- The bytes up to the end of the line and, after it, to the first one that is not a space, or
to the end of the next line. -/
def eolReads (count : Nat) : List UInt8 → List UInt8
  | [] => []
  | b :: rest => b ::
      if b = 10 then if count = 0 then eolReads 1 rest else []
      else if isSpace b ∨ count = 0 then eolReads count rest else []

/-- A helper that pushes back a byte which it has read and which is not 0, or that reads nothing and
finds its variable empty. -/
def Returnable (reads : List UInt8) (c : UInt8) : Prop :=
  if reads = [] then c = 0 else reads.getLast? ≠ some 0

/-- The calls that give back what they have taken. The bytes still to come are `rest`, and `c` is
what the helper's variable holds before its first read. -/
def ReadCall.Safe (rest : List UInt8) (c : UInt8) : ReadCall → Prop
  | .read _ => True
  | .space => Returnable (spaceReads rest) c
  | .eol => Returnable (eolReads 0 rest) c ∧
      ((eolReads 0 rest).getLast? = some 10 → 2 ≤ (eolReads 0 rest).count 10)

theorem spaceReads_front (rest : List UInt8) : spaceReads rest <+: rest := by
  induction rest with
  | nil => exact List.prefix_rfl
  | cons b rest ih =>
      rw [spaceReads]
      split
      · exact List.prefix_cons_inj b |>.mpr ih
      · exact List.prefix_cons_inj b |>.mpr (List.nil_prefix)

theorem eolReads_front (count : Nat) (rest : List UInt8) : eolReads count rest <+: rest := by
  induction rest generalizing count with
  | nil => exact List.prefix_rfl
  | cons b rest ih =>
      rw [eolReads]
      apply (List.prefix_cons_inj b).mpr
      split
      · split
        · exact ih 1
        · exact List.nil_prefix
      · split
        · exact ih count
        · exact List.nil_prefix

structure HasRead (reads rest : List UInt8) (before c : UInt8) (r : Reader) : Prop where
  input : r.input = sends (rest.drop reads.length)
  atEnd : r.atEnd = .timeout
  last : c = reads.getLast?.getD before

theorem HasRead.nil {rest : List UInt8} {c : UInt8} {r : Reader} (input : r.input = sends rest)
    (atEnd : r.atEnd = .timeout) : HasRead [] rest c c r :=
  ⟨input, atEnd, rfl⟩

theorem HasRead.cons {reads rest : List UInt8} {b c : UInt8} {r : Reader}
    (has : HasRead reads rest b c r) (before : UInt8) :
    HasRead (b :: reads) (b :: rest) before c r := by
  refine ⟨has.input, has.atEnd, ?_⟩
  rw [has.last, List.getLast?_cons]
  rfl

theorem spaceLoop_reads {rest : List UInt8} {g : Got} (pending : g.reader.pending = sends rest)
    (final : g.reader.atEnd = .timeout) :
    ∃ l t, Rounds parseSpaceStep g l ∧ (doWhile parseSpaceStep g).Returns t ∧
      spaceReports l = spaceReads rest ∧ HasRead (spaceReads rest) rest g.c t.c t.reader := by
  have positive : (0 : Int8) < 1 := by decide
  induction rest generalizing g with
  | nil =>
      have next : g.reader.next = .timeout := (next_of_empty pending).trans final
      have stop : (parseSpaceStep g).2 = false := by simp [parseSpaceStep, next, GetByte.ret]
      refine ⟨[g], _, .last stop, (doWhile_exit stop).mpr rfl, ?_, ?_⟩
      · simp [spaceReports, Got.reported, next, GetByte.ret, spaceReads]
      · constructor <;> simp [parseSpaceStep, pending, final, next, GetByte.store, spaceReads]
  | cons b rest ih =>
      have next : g.reader.next = .byte b := next_of_pending pending
      have left : (parseSpaceStep g).1.reader.pending = sends rest := by
        simp [parseSpaceStep, pending]
      have input : (parseSpaceStep g).1.reader.input = sends rest := by
        simp [parseSpaceStep, pending]
      have atEnd : (parseSpaceStep g).1.reader.atEnd = .timeout := by simp [parseSpaceStep, final]
      have c : (parseSpaceStep g).1.c = b := by simp [parseSpaceStep, next]
      cases blank : isBlank b with
      | true =>
          have again : (parseSpaceStep g).2 = true := by simp [parseSpaceStep, next, blank, positive]
          obtain ⟨l, t, rounds, run, reports, reads⟩ := ih left atEnd
          refine ⟨g :: l, t, .next again rounds, (doWhile_next again).mpr run, ?_, ?_⟩
          · rw [spaceReads, if_pos blank, ← reports]
            simp [spaceReports, Got.reported, next, positive]
          · rw [spaceReads, if_pos blank]
            rw [c] at reads
            exact reads.cons g.c
      | false =>
          have stop : (parseSpaceStep g).2 = false := by simp [parseSpaceStep, next, blank]
          refine ⟨[g], _, .last stop, (doWhile_exit stop).mpr rfl, ?_, ?_⟩
          · simp [spaceReports, Got.reported, next, positive, spaceReads, blank]
          · rw [spaceReads, blank, if_neg (by simp), c]
            exact (HasRead.nil input atEnd).cons g.c

theorem eolLoop_reads {rest : List UInt8} {t : EolLoop} (pending : t.reader.pending = sends rest)
    (final : t.reader.atEnd = .timeout) (count : t.eolCount < 2) :
    ∃ l u, Rounds parseEOLStep t l ∧ (doWhile parseEOLStep t).Returns u ∧
      eolReports l = eolReads t.eolCount rest ∧
      HasRead (eolReads t.eolCount rest) rest t.c u.c u.reader ∧
      u.eolCount ≤ t.eolCount + (eolReads t.eolCount rest).count 10 + (if u.c = 10 then 1 else 0) := by
  have positive : (0 : UInt8) < (1 : Int8).toUInt8 := by decide
  have fails : ¬ (0 : UInt8) < (0 : Int8).toUInt8 := by decide
  have reported : (0 : Int8) < 1 := by decide
  induction rest generalizing t with
  | nil =>
      have next : t.reader.next = .timeout := (next_of_empty pending).trans final
      have stop : (parseEOLStep t).2 = false := by
        simp [parseEOLStep, next, GetByte.ret, fails]
      refine ⟨[t], _, .last stop, (doWhile_exit stop).mpr rfl, ?_, ?_, ?_⟩
      · simp [eolReports, Got.reported, next, GetByte.ret, eolReads]
      · constructor <;> simp [parseEOLStep, pending, final, next, GetByte.store, eolReads]
      · simp only [parseEOLStep, readC_c, next, GetByte.store, eolReads, List.count_nil]
        split <;> simp_all
  | cons b rest ih =>
      have next : t.reader.next = .byte b := next_of_pending pending
      have left : (parseEOLStep t).1.reader.pending = sends rest := by
        simp [parseEOLStep, pending]
      have input : (parseEOLStep t).1.reader.input = sends rest := by simp [parseEOLStep, pending]
      have atEnd : (parseEOLStep t).1.reader.atEnd = .timeout := by simp [parseEOLStep, final]
      have c : (parseEOLStep t).1.c = b := by simp [parseEOLStep, next]
      have counted : (parseEOLStep t).1.eolCount = if b = 10 then t.eolCount + 1 else t.eolCount := by
        simp [parseEOLStep, next]
      have reads : eolReads t.eolCount (b :: rest) =
          b :: if (parseEOLStep t).2 then eolReads (parseEOLStep t).1.eolCount rest else [] := by
        rw [eolReads, counted]
        simp only [parseEOLStep, readC_c, readC_ret, next, byte_store, byte_ret]
        by_cases newline : b = 10
        · have space : isSpace 10 = true := by decide
          simp only [newline, if_true, space, Bool.true_or, Bool.true_and, positive, decide_true]
          by_cases first : t.eolCount = 0
          · simp [first]
          · simp [first, show ¬ t.eolCount + 1 < 2 by omega]
        · simp [newline, positive, count]
      cases again : (parseEOLStep t).2 with
      | true =>
          rw [again, if_pos rfl] at reads
          have less : (parseEOLStep t).1.eolCount < 2 := by
            simp only [parseEOLStep, Bool.and_eq_true, decide_eq_true_eq] at again
            exact again.2
          obtain ⟨l, u, rounds, run, reports, has, bound⟩ := ih left atEnd less
          refine ⟨t :: l, u, .next again rounds, (doWhile_next again).mpr run, ?_, ?_, ?_⟩
          · rw [reads, ← reports]
            simp [eolReports, Got.reported, next, reported]
          · rw [reads]
            rw [c] at has
            exact has.cons t.c
          · rw [reads, List.count_cons, counted]
            rw [counted] at bound
            by_cases newline : b = 10
            · simp only [newline, if_true, beq_self_eq_true] at bound ⊢
              omega
            · simp only [newline, if_false, beq_iff_eq] at bound ⊢
              omega
      | false =>
          rw [again, if_neg (by simp)] at reads
          refine ⟨[t], _, .last again, (doWhile_exit again).mpr rfl, ?_, ?_, ?_⟩
          · rw [reads]
            simp [eolReports, Got.reported, next, reported]
          · rw [reads, c]
            exact (HasRead.nil input atEnd).cons t.c
          · rw [reads, counted, c]
            split <;> simp_all

/-! ## Conservation -/

theorem returned_whole {reads rest : List UInt8} {before c : UInt8} {r : Reader}
    (front : reads <+: rest) (safe : Returnable reads before)
    (has : HasRead reads rest before c r) :
    ∃ left, (pushC c r).pending = sends left ∧ reads.dropLast ++ left = rest := by
  obtain ⟨after, rfl⟩ := front
  have input : r.input = sends after := by rw [has.input, List.drop_left]
  have last := has.last
  unfold Returnable at safe
  rw [pushC_pending, input]
  by_cases empty : reads = []
  · rw [if_pos empty] at safe
    subst empty
    have zero : c = 0 := last.trans safe
    rw [if_pos zero]
    exact ⟨after, rfl, rfl⟩
  · rw [if_neg empty] at safe
    have found : reads.getLast? = some (reads.getLast empty) := List.getLast?_eq_some_getLast empty
    have same : c = reads.getLast empty := by rw [last, found, Option.getD_some]
    have nonzero : c ≠ 0 := by
      intro zero
      rw [found, ← same, zero] at safe
      exact safe rfl
    rw [if_neg nonzero]
    refine ⟨c :: after, rfl, ?_⟩
    rw [← List.singleton_append, ← List.append_assoc, same, List.dropLast_concat_getLast empty]

theorem parseSpace_conserves {r : Reader} {rest : List UInt8} (pending : r.pending = sends rest)
    (final : r.atEnd = .timeout) (safe : Returnable (spaceReads rest) (r.frame 0)) {t : Scanned}
    {l : List Got} (run : (parseSpace r).Returns t)
    (rounds : Rounds parseSpaceStep ⟨1, r.frame 0, r.enter⟩ l) :
    t.reader.atEnd = .timeout ∧
      ∃ left, t.reader.pending = sends left ∧ (spaceReports l).dropLast ++ left = rest := by
  obtain ⟨l', u, rounds', loop, reports, has⟩ :=
    @spaceLoop_reads rest ⟨1, r.frame 0, r.enter⟩ pending final
  rw [rounds.unique rounds', reports]
  rw [parseSpace, loop.bind_iff, returns_pure] at run
  rw [run]
  exact ⟨has.atEnd, returned_whole (spaceReads_front rest) safe has⟩

theorem parseEOL_conserves {r : Reader} {q : Request} {rest : List UInt8}
    (pending : r.pending = sends rest) (final : r.atEnd = .timeout)
    (safe : ReadCall.Safe rest (r.frame 0) .eol) {p : Parsed} {l : List EolLoop}
    (run : (parseEOL r q).Returns p)
    (rounds : Rounds parseEOLStep ⟨1, r.frame 0, 0, r.enter⟩ l) :
    p.reader.atEnd = .timeout ∧
      (∃ left, p.reader.pending = sends left ∧ (eolReports l).dropLast ++ left = rest) ∧
      (p.request.headersDone = true → q.headersDone = true ∨ 2 ≤ (eolReports l).count 10) := by
  obtain ⟨l', u, rounds', loop, reports, has, bound⟩ :=
    @eolLoop_reads rest ⟨1, r.frame 0, 0, r.enter⟩ pending final (show 0 < 2 by decide)
  dsimp only at reports has bound
  rw [rounds.unique rounds', reports]
  rw [parseEOL, loop.bind_iff, returns_pure] at run
  rw [run]
  refine ⟨has.atEnd, returned_whole (eolReads_front 0 rest) safe.1 has, fun done => ?_⟩
  by_cases twice : 1 < u.eolCount
  · right
    by_contra once
    have less : (eolReads 0 rest).count 10 ≤ 1 := by omega
    rw [Nat.zero_add] at bound
    have newline : u.c = 10 := by
      by_contra other
      rw [if_neg other] at bound
      omega
    rw [if_pos newline] at bound
    -- One newline has been read, and it is still in the variable.
    have one : (eolReads 0 rest).count 10 = 1 := by omega
    have nonempty : eolReads 0 rest ≠ [] := by
      intro empty
      rw [empty] at one
      cases one
    have last : (eolReads 0 rest).getLast? = some 10 := by
      have found := List.getLast?_eq_some_getLast nonempty
      have value := has.last
      rw [found, Option.getD_some, newline] at value
      rw [found, ← value]
    have := safe.2 last
    omega
  · rw [if_neg twice] at done
    exact .inl done

theorem Pulls.conserves {stream : List UInt8} {call : ReadCall} {s t : Reading}
    (kept : s.Conserves stream) (step : Pulls call s t)
    (safe : ∀ rest, s.reader.pending = sends rest → call.Safe rest (s.reader.frame 0)) :
    t.Conserves stream := by
  obtain ⟨rest, pending, whole⟩ := kept.whole
  have here := safe rest pending
  cases step with
  | @read c =>
      refine ⟨(readC_atEnd _ _).trans kept.atEnd, ?_, kept.done⟩
      cases rest with
      | nil =>
          have next : s.reader.next = .timeout := (next_of_empty pending).trans kept.atEnd
          refine ⟨[], by simp [pending], ?_⟩
          simpa [Got.reported, next, GetByte.ret] using whole
      | cons b rest =>
          have next : s.reader.next = .byte b := next_of_pending pending
          have positive : (0 : Int8) < 1 := by decide
          refine ⟨rest, by simp [pending], ?_⟩
          simpa [Got.reported, next, positive] using whole
  | space run rounds =>
      obtain ⟨atEnd, left, after, same⟩ := parseSpace_conserves pending kept.atEnd here run rounds
      exact ⟨atEnd, ⟨left, after, by rw [List.append_assoc, same, whole]⟩, kept.done⟩
  | eol run rounds =>
      obtain ⟨atEnd, ⟨left, after, same⟩, done⟩ :=
        parseEOL_conserves pending kept.atEnd here run rounds
      refine ⟨atEnd, ⟨left, after, by rw [List.append_assoc, same, whole]⟩, fun headers => ?_⟩
      rw [Bool.or_eq_true, decide_eq_true_eq]
      exact (done headers).imp_left kept.done

inductive SafelyPulls : Reading → List ReadCall → Reading → Prop
  | nil (s : Reading) : SafelyPulls s [] s
  | cons {s t u : Reading} {call : ReadCall} {calls : List ReadCall}
      (safe : ∀ rest, s.reader.pending = sends rest → call.Safe rest (s.reader.frame 0))
      (step : Pulls call s t) (others : SafelyPulls t calls u) : SafelyPulls s (call :: calls) u

def Reading.start (stream : List UInt8) (stack : Nat → Mem) (q : Request) : Reading :=
  ⟨⟨sends stream, .timeout, none, stack⟩, { q with headersDone := false }, [], false⟩

theorem start_conserves (stream : List UInt8) (stack : Nat → Mem) (q : Request) :
    (Reading.start stream stack q).Conserves stream :=
  ⟨rfl, ⟨stream, rfl, rfl⟩, fun done => absurd done (by simp [Reading.start])⟩

theorem SafelyPulls.conserves {stream : List UInt8} {calls : List ReadCall} {s t : Reading}
    (run : SafelyPulls s calls t) (kept : s.Conserves stream) : t.Conserves stream := by
  induction run with
  | nil => exact kept
  | cons safe step others ih => exact ih (step.conserves kept safe)

/-- Safe calls conserve the stream, in whatever order they are made. -/
theorem pulls_conserve {stream : List UInt8} {stack : Nat → Mem} {q : Request}
    {calls : List ReadCall} {t : Reading} (run : SafelyPulls (.start stream stack q) calls t) :
    t.Conserves stream :=
  run.conserves (start_conserves stream stack q)

theorem pulls_conserve_word : ∃ t : Reading, t.log = ascii " a" ∧ t.Conserves (ascii " a b") := by
  let s : Reading := .start (ascii " a b") (fun _ _ => 120) State.boot.request
  have first : (parseSpaceStep ⟨1, s.reader.frame 0, s.reader.enter⟩).2 = true := by decide
  have second : (parseSpaceStep (parseSpaceStep ⟨1, s.reader.frame 0, s.reader.enter⟩).1).2 = false := by
    decide
  have space : Pulls .space s _ :=
    .space (((doWhile_next first).mpr ((doWhile_exit second).mpr rfl)).bind (returns_pure.mpr rfl))
      (.next first (.last second))
  have safe : ∀ rest, s.reader.pending = sends rest →
      ReadCall.Safe rest (s.reader.frame 0) .space := by
    intro rest pending
    have same : ascii " a b" = rest :=
      List.map_injective_iff.mpr (fun _ _ equal => GetByte.byte.inj equal) pending
    rw [← same]
    unfold ReadCall.Safe Returnable
    decide
  exact ⟨_, rfl, pulls_conserve (.cons safe space
    (@SafelyPulls.cons _ _ _ (.read 0) _ (fun _ _ => trivial) .read (.nil _)))⟩

theorem pulls_lose :
    (∃ t, Pulls .eol (.start [10] (fun _ _ => 0) State.boot.request) t ∧
        t.request.headersDone = true ∧ t.ended = false) ∧
      ∃ t u, Pulls .space (.start [] (fun _ _ => 120) State.boot.request) t ∧
        Pulls (.read 0) t u ∧ u.log = [120] := by
  constructor
  · let s : Reading := .start [10] (fun _ _ => 0) State.boot.request
    have first : (parseEOLStep ⟨1, s.reader.frame 0, 0, s.reader.enter⟩).2 = true := by decide
    have second : (parseEOLStep (parseEOLStep ⟨1, s.reader.frame 0, 0, s.reader.enter⟩).1).2 =
        false := by
      decide
    exact ⟨_, .eol (((doWhile_next first).mpr ((doWhile_exit second).mpr rfl)).bind
      (returns_pure.mpr rfl)) (.next first (.last second)), rfl, rfl⟩
  · let s : Reading := .start [] (fun _ _ => 120) State.boot.request
    have first : (parseSpaceStep ⟨1, s.reader.frame 0, s.reader.enter⟩).2 = false := by decide
    exact ⟨_, _, .space (((doWhile_exit first).mpr rfl).bind (returns_pure.mpr rfl)) (.last first),
      .read, rfl⟩

end AttoHTTP
