import AttoHTTP.Model.UnixSockets
import AttoHTTP.Proof.Live

/-!
# What a client gets

The wrapper hides interruptions and failed attempts: its calls are those of a connection without them,
and a run of the process is a run of the server.
-/

namespace AttoHTTP.UnixSockets
open Library Comp

/-! ## Receiving -/

structure Waiting.Hears (t : Waiting) (got : Got) : Prop where
  running : t.exited = false
  ret : t.ret.toInt8 = got.ret
  byte : t.byte = got.c
  input : got.reader.input = heard t.polls
  atEnd : got.reader.atEnd = .timeout
  polls_open : .broken ∉ t.polls

theorem getByteStep_exit {t : Waiting} {got : Got} (stop : (getByteStep t).2 = false)
    (hears : (getByteStep t).1.Hears got) :
    ∃ t', (doWhile getByteStep t).Returns t' ∧ t'.Hears got :=
  ⟨_, (doWhile_exit stop).mpr rfl, hears⟩

theorem getByteLoop_hears {ret : Int16} {byte : UInt8} {polls : List Poll}
    (polls_open : .broken ∉ polls) {r : Reader} (input : r.input = heard polls)
    (atEnd : r.atEnd = .timeout) :
    ∃ t, (doWhile getByteStep ⟨ret, byte, polls, false⟩).Returns t ∧
      t.Hears (AttoHTTP.getByte byte r) := by
  induction polls generalizing ret with
  | nil =>
      rw [AttoHTTP.getByte, input, heard, atEnd]
      exact getByteStep_exit rfl ⟨rfl, rfl, rfl, input, atEnd, polls_open⟩
  | cons poll polls ih =>
      have rest : .broken ∉ polls := fun member => polls_open (List.mem_cons_of_mem _ member)
      cases poll with
      | broken => exact absurd List.mem_cons_self polls_open
      | interrupted =>
          obtain ⟨t, loop, hears⟩ := @ih (-1) rest input
          exact ⟨t, (doWhile_next rfl).mpr loop, hears⟩
      | failed =>
          obtain ⟨t, loop, hears⟩ := @ih (-1) rest input
          exact ⟨t, (doWhile_next rfl).mpr loop, hears⟩
      | quiet =>
          rw [AttoHTTP.getByte, input, heard]
          exact getByteStep_exit rfl ⟨rfl, rfl, rfl, rfl, atEnd, rest⟩
      | closed =>
          rw [AttoHTTP.getByte, input, heard]
          exact getByteStep_exit rfl ⟨rfl, rfl, rfl, rfl, atEnd, rest⟩
      | byte b =>
          rw [AttoHTTP.getByte, input, heard]
          exact getByteStep_exit rfl ⟨rfl, rfl, rfl, rfl, atEnd, rest⟩

/-- Some calls one after the other: what each returns and leaves in the byte. -/
def getBytes (sock : Int16) : Nat → UInt8 → List Poll → Comp (List (Int8 × UInt8))
  | 0, _, _ => pure []
  | n + 1, byte, polls => do
      let t ← getByte sock byte polls
      let rest ← getBytes sock n t.byte t.polls
      pure ((t.ret.toInt8, t.byte) :: rest)

def gets : Nat → UInt8 → Reader → List (Int8 × UInt8)
  | 0, _, _ => []
  | n + 1, byte, r =>
      let got := AttoHTTP.getByte byte r
      (got.ret, got.c) :: gets n got.c got.reader

theorem getBytes_hears {sock : Int16} (reads : 0 < sock) {n : Nat} {byte : UInt8} {polls : List Poll}
    (polls_open : .broken ∉ polls) {r : Reader} (input : r.input = heard polls)
    (atEnd : r.atEnd = .timeout) : (getBytes sock n byte polls).Returns (gets n byte r) := by
  induction n generalizing byte polls r with
  | zero => exact returns_pure.mpr rfl
  | succ n ih =>
      obtain ⟨t, loop, hears⟩ := @getByteLoop_hears 0 byte polls polls_open r input atEnd
      have call : (getByte sock byte polls).Returns t := by
        rw [getByte, if_pos reads]
        exact loop
      have rest := @ih t.byte t.polls hears.polls_open _ hears.input hears.atEnd
      refine call.bind (rest.bind (returns_pure.mpr ?_))
      rw [gets, hears.ret, hears.byte]

theorem getBytes_unread {sock : Int16} (other : ¬ 0 < sock) {n : Nat} {byte : UInt8}
    {polls : List Poll} {r : Reader} (input : r.input = []) (atEnd : r.atEnd = .timeout) :
    (getBytes sock n byte polls).Returns (gets n byte r) := by
  induction n with
  | zero => exact returns_pure.mpr rfl
  | succ n ih =>
      have call : (getByte sock byte polls).Returns ⟨0, byte, polls, false⟩ := by
        rw [getByte, if_neg other]
        exact returns_pure.mpr rfl
      refine call.bind (ih.bind (returns_pure.mpr ?_))
      rw [gets, AttoHTTP.getByte, input, atEnd]
      rfl

/-! ## Sending -/

def Sending.Speaks (t : Sending) (w : Writer) : Prop := ∀ i, w.results i = (said t.sends).getD i 1

theorem setByteLoop_speaks (b : UInt8) {ret : Int16} {out : List Send} {wire : List UInt8}
    {w : Writer} (speaks : ∀ i, w.results i = (said out).getD i 1) :
    ∃ t, (doWhile (setByteStep b) ⟨ret, out, wire⟩).Returns t ∧ t.ret = (AttoHTTP.setByte b w).1 ∧
      t.Speaks (AttoHTTP.setByte b w).2 ∧ t.wire = wire ++ if w.results 0 = 1 then [b] else [] := by
  induction out generalizing ret with
  | nil =>
      have one : w.results 0 = 1 := speaks 0
      refine ⟨_, (doWhile_exit rfl).mpr rfl, one.symm, fun i => speaks (i + 1), ?_⟩
      rw [if_pos one]
      rfl
  | cons answer out ih =>
      cases answer with
      | nothing =>
          obtain ⟨t, loop, ends⟩ := @ih 0 speaks
          exact ⟨t, (doWhile_next rfl).mpr loop, ends⟩
      | again =>
          obtain ⟨t, loop, ends⟩ := @ih (-1) speaks
          exact ⟨t, (doWhile_next rfl).mpr loop, ends⟩
      | sent =>
          have one : w.results 0 = 1 := speaks 0
          refine ⟨_, (doWhile_exit rfl).mpr rfl, one.symm, fun i => speaks (i + 1), ?_⟩
          rw [if_pos one]
          rfl
      | failed =>
          have lost : w.results 0 = -1 := speaks 0
          refine ⟨_, (doWhile_exit rfl).mpr rfl, lost.symm, fun i => speaks (i + 1), ?_⟩
          rw [lost, if_neg (by decide), List.append_nil]
          rfl

def setBytes : List UInt8 → Sending → Comp (List Int16 × Sending)
  | [], t => pure ([], t)
  | b :: bytes, t => do
      let t ← setByte b t
      let rest ← setBytes bytes t
      pure (t.ret :: rest.1, rest.2)

def sets : List UInt8 → Writer → List Int16
  | [], _ => []
  | b :: bytes, w => (AttoHTTP.setByte b w).1 :: sets bytes (AttoHTTP.setByte b w).2

theorem write_sets (bytes : List UInt8) (w : Writer) :
    (write bytes w).1 = ((sets bytes w).map fun ret => ret.toInt8.toInt32.toUInt32).sum := by
  induction bytes generalizing w with
  | nil => rfl
  | cons b bytes ih => rw [write, ih, sets, List.map_cons, List.sum_cons]

/-- The bytes whose call returned 1. -/
def delivered (rets : List Int16) (bytes : List UInt8) : List UInt8 :=
  ((bytes.zip rets).filter (·.2 = 1)).map Prod.fst

theorem delivered_cons (ret : Int16) (rets : List Int16) (b : UInt8) (bytes : List UInt8) :
    delivered (ret :: rets) (b :: bytes) =
      (if ret = 1 then [b] else []) ++ delivered rets bytes := by
  rw [delivered, List.zip_cons_cons]
  by_cases one : ret = 1
  · rw [if_pos one, List.filter_cons_of_pos (by exact decide_eq_true one)]
    rfl
  · rw [if_neg one, List.filter_cons_of_neg (by exact fun told => one (of_decide_eq_true told))]
    rfl

theorem sets_all {w : Writer} (all : ∀ i, w.results i = 1) (bytes : List UInt8) :
    sets bytes w = bytes.map fun _ => 1 := by
  induction bytes generalizing w with
  | nil => rfl
  | cons b bytes ih =>
      rw [sets, ih (w := (AttoHTTP.setByte b w).2) fun i => all (i + 1), List.map_cons]
      exact congrArg (· :: _) (all 0)

theorem delivered_all (bytes : List UInt8) :
    delivered (bytes.map fun _ => 1) bytes = bytes := by
  induction bytes with
  | nil => rfl
  | cons b bytes ih => exact congrArg (b :: ·) ih

theorem setBytes_speaks {bytes : List UInt8} {t : Sending} {w : Writer} (speaks : t.Speaks w) :
    ∃ t', (setBytes bytes t).Returns (sets bytes w, t') ∧ t'.Speaks (write bytes w).2 ∧
      t'.wire = t.wire ++ delivered (sets bytes w) bytes := by
  induction bytes generalizing t w with
  | nil => exact ⟨t, returns_pure.mpr rfl, speaks, (List.append_nil _).symm⟩
  | cons b bytes ih =>
      obtain ⟨m, call, ret, speaks', wire⟩ := @setByteLoop_speaks b 0 t.sends t.wire w speaks
      obtain ⟨t', rest, speaks'', wire'⟩ := ih speaks'
      refine ⟨t', ?_, speaks'', ?_⟩
      · refine call.bind (rest.bind (returns_pure.mpr ?_))
        rw [sets, ret]
      · rw [wire', wire, List.append_assoc, sets, delivered_cons]
        rfl

theorem results_sent {out : List Send} (unbroken : .failed ∉ out) (i : Nat) :
    (said out).getD i 1 = 1 := by
  induction out generalizing i with
  | nil => rfl
  | cons answer out ih =>
      have rest := ih fun member => unbroken (List.mem_cons_of_mem _ member)
      cases answer with
      | failed => exact absurd List.mem_cons_self unbroken
      | nothing => exact rest i
      | again => exact rest i
      | sent =>
          cases i with
          | zero => rfl
          | succ i => exact rest i

/-! ## One connection -/

/-- What the functions of the wrapper do is what the server takes for the connection: each byte that
`recv` has returned is handed on once, in order; each call of `attoHTTPSetByte` returns what the writer
counts, and the bytes for which it returned 1 have gone out once, in order. -/
theorem guest_connection (cfg : Config) (s : State) (g : Guest) (n : Nat) (byte : UInt8)
    (bytes : List UInt8) :
    (getBytes g.sock n byte g.polls).Returns (gets n byte (s.accept cfg g.connection).reader) ∧
      ∃ rets t, (setBytes bytes ⟨0, g.sends, []⟩).Returns (rets, t) ∧
        rets = sets bytes (s.accept cfg g.connection).writer ∧
        (write bytes (s.accept cfg g.connection).writer).1 =
          (rets.map fun ret => ret.toInt8.toInt32.toUInt32).sum ∧
        t.Speaks (write bytes (s.accept cfg g.connection).writer).2 ∧
        t.wire = delivered rets bytes := by
  constructor
  · by_cases reads : 0 < g.sock
    · exact getBytes_hears reads g.polls_open (if_pos reads) rfl
    · exact getBytes_unread reads (if_neg reads) rfl
  · obtain ⟨t, calls, speaks, wire⟩ := @setBytes_speaks bytes ⟨0, g.sends, []⟩
      (s.accept cfg g.connection).writer fun _ => rfl
    exact ⟨_, t, calls, rfl, write_sets bytes _, speaks, wire⟩

/-! ## The process -/

def Turn.actions : Turn → List Action
  | .register call => [.register call]
  | .main (.guest g) => [.serve g.connection]
  | .main _ => []
  | .stop => []

theorem turn_acts {cfg : Config} {p q : Process} {turn : Turn} (running : turn ≠ .stop)
    (listening : 0 < p.sock) (turns : Turns cfg p turn q) :
    0 < q.sock ∧ Steps (Acts cfg) p.state turn.actions q.state := by
  cases turns with
  | register call => exact ⟨listening, .cons (.register call) (.nil _)⟩
  | stop => exact absurd rfl running
  | main returned =>
      rename_i knock
      unfold wrapperMain at returned
      rw [if_pos listening] at returned
      cases knock with
      | interrupted =>
          cases returns_pure.mp returned
          exact ⟨listening, .nil _⟩
      | broken => cases returns_pure.mp returned
      | refused => cases returns_pure.mp returned
      | guest g =>
          obtain ⟨s, served, done⟩ := returns_bind.mp returned
          cases returns_pure.mp done
          exact ⟨listening, .cons (.serve served) (.nil _)⟩

theorem turns_acts {cfg : Config} {p q : Process} {turns : List Turn} (listening : 0 < p.sock)
    (running : .stop ∉ turns) (run : Steps (Turns cfg) p turns q) :
    0 < q.sock ∧ Steps (Acts cfg) p.state (turns.flatMap Turn.actions) q.state :=
  run.shows (fun p => 0 < p.sock) Process.state Turn.actions (· ≠ .stop)
    (fun _ _ _ now listening first => turn_acts now listening first)
    (fun _ member same => running (same ▸ member)) listening

def Knock.Sound (knock : Knock) : Prop := knock ≠ .broken ∧ knock ≠ .refused

def lateGuest : Guest where
  sock := 4
  polls := .interrupted :: .failed :: iconRequest.render.map .byte
  sends := [.again, .nothing, .sent]
  readStack _ _ := 0
  writeStack _ _ := 0
  checkAuth _ _ _ := 0
  visit := 0
  sock_accepted := by decide
  polls_open := by simp

def lateTurns : List Turn :=
  [.register (.eventsURL (ascii "/events")), .main .interrupted, .main (.guest lateGuest)]

theorem lateTurns_sound : ∀ knock, .main knock ∈ lateTurns → knock.Sound := by
  intro knock member
  simp only [lateTurns, List.mem_cons, reduceCtorEq, List.not_mem_nil, or_false, false_or,
    Turn.main.injEq] at member
  rcases member with rfl | rfl <;> exact ⟨nofun, nofun⟩

theorem heard_bytes (bytes : List UInt8) : heard (bytes.map .byte) = sends bytes := by
  induction bytes with
  | nil => rfl
  | cons b bytes ih => exact congrArg (.byte b :: ·) ih

end AttoHTTP.UnixSockets
