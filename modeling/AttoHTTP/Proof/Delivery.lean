import AttoHTTP.Model.Headers
import AttoHTTP.Proof.Reader

namespace AttoHTTP
open Library Comp

def sends (text : List UInt8) : List GetByte := text.map .byte

@[simp]
theorem sends_nil : sends [] = [] := rfl

@[simp]
theorem sends_cons (b : UInt8) (text : List UInt8) : sends (b :: text) = .byte b :: sends text := rfl

@[simp]
theorem sends_append (first second : List UInt8) :
    sends (first ++ second) = sends first ++ sends second :=
  List.map_append ..

/-- The reader has just read, so nothing is pushed back. -/
structure Reader.Left (r : Reader) (rest : List GetByte) : Prop where
  input : r.input = rest
  pending : r.pending = rest

theorem readC_left {c : UInt8} {r : Reader} {e : GetByte} {rest : List GetByte}
    (pending : r.pending = e :: rest) : (readC c r).reader.Left rest := by
  constructor <;> simp [pending]

theorem readC_byte {c : UInt8} {r : Reader} {b : UInt8} {rest : List GetByte}
    (pending : r.pending = .byte b :: rest) :
    (readC c r).ret = 1 ∧ (readC c r).c = b := by
  simp [next_of_pending pending]

theorem pushC_left {c : UInt8} {r : Reader} {rest : List GetByte} (left : r.Left rest)
    (nonzero : c ≠ 0) : (pushC c r).input = rest ∧ (pushC c r).pending = .byte c :: rest := by
  simp [nonzero, left.input]

theorem parseSpace_found {r : Reader} {blanks : List UInt8} {c : UInt8} {rest : List GetByte}
    (pending : r.pending = sends blanks ++ .byte c :: rest) (blank : ∀ b ∈ blanks, isBlank b)
    (stop : isBlank c = false) :
    ∃ t, (parseSpace r).Returns t ∧ t.ret = 1 ∧ t.reader.input = rest ∧
      t.reader.pending = if c = 0 then rest else .byte c :: rest := by
  suffices loop : ∀ g : Got, g.reader.pending = sends blanks ++ .byte c :: rest →
      ∃ g', (doWhile parseSpaceStep g).Returns g' ∧ g'.ret = 1 ∧ g'.c = c ∧ g'.reader.Left rest by
    obtain ⟨g, run, ret, last, left⟩ := loop ⟨1, r.frame 0, r.enter⟩ pending
    refine ⟨_, run.bind (returns_pure.mpr rfl), ret, left.input, ?_⟩
    rw [pushC_pending, last, left.input]
  clear pending
  induction blanks with
  | nil =>
      intro g pending
      have read := readC_byte (c := g.c) pending
      have exit : (parseSpaceStep g).2 = false := by
        simp only [parseSpaceStep, read.2, stop, Bool.false_and]
      exact ⟨_, (doWhile_exit exit).mpr rfl, read.1, read.2, readC_left pending⟩
  | cons b blanks ih =>
      intro g pending
      rw [sends_cons, List.cons_append] at pending
      have read := readC_byte (c := g.c) pending
      have next : (parseSpaceStep g).2 = true := by
        simp only [parseSpaceStep, read.1, read.2, blank b (by simp)]
        decide
      obtain ⟨g', run, done⟩ := ih (fun b hb => blank b (by simp [hb])) (parseSpaceStep g).1
        (readC_left pending).pending
      exact ⟨g', (doWhile_next next).mpr run, done⟩

theorem parseSpace_text {r : Reader} {blanks : List UInt8} {c : UInt8} {rest : List GetByte}
    (pending : r.pending = sends blanks ++ .byte c :: rest) (blank : ∀ b ∈ blanks, isBlank b)
    (stop : isBlank c = false) (nonzero : c ≠ 0) :
    ∃ t, (parseSpace r).Returns t ∧ t.ret = 1 ∧ t.reader.input = rest ∧
      t.reader.pending = .byte c :: rest := by
  have found := parseSpace_found pending blank stop
  rwa [if_neg nonzero] at found

theorem parseSpace_token {r : Reader} {blanks token : List UInt8} {rest : List GetByte}
    (pending : r.pending = sends blanks ++ (sends token ++ rest)) (blank : ∀ b ∈ blanks, isBlank b)
    (nonempty : token ≠ []) (plain : ∀ b ∈ token, isBlank b = false ∧ b ≠ 0) :
    ∃ t, (parseSpace r).Returns t ∧ t.ret = 1 ∧ t.reader.pending = sends token ++ rest := by
  cases token with
  | nil => exact absurd rfl nonempty
  | cons b token =>
      have first := plain b (by simp)
      obtain ⟨t, space, ret, -, left⟩ := parseSpace_text pending blank first.1 first.2
      exact ⟨t, space, ret, left⟩

/-! ## Filling a buffer -/

section Fill
variable (stop : UInt8 → Bool) (more : Int8 → Bool) {room : Nat}

theorem fillStep_stop (room : Nat) {f : Fill} {b : UInt8} {rest : List GetByte}
    (pending : f.reader.pending = .byte b :: rest) (stops : stop b = true) :
    fillStep stop more room f =
      (⟨1, f.buffer.set f.ptr b, f.ptr, (readC (f.buffer f.ptr) f.reader).reader⟩, false) := by
  obtain ⟨ret, c⟩ := readC_byte (c := f.buffer f.ptr) pending
  simp only [fillStep, c, ret, stops, if_true]

theorem fillStep_go (room : Nat) {f : Fill} {b : UInt8} {rest : List GetByte}
    (pending : f.reader.pending = .byte b :: rest) (go : stop b = false) :
    fillStep stop more room f =
      (⟨1, f.buffer.set f.ptr b, f.ptr + 1, (readC (f.buffer f.ptr) f.reader).reader⟩,
        more 1 && f.ptr + 1 < room) := by
  obtain ⟨ret, c⟩ := readC_byte (c := f.buffer f.ptr) pending
  simp only [fillStep, c, ret, go, Bool.false_eq_true, if_false]

theorem fill_text {r : Reader} {text : List UInt8} {c : UInt8} {rest : List GetByte} (buffer : Mem)
    (pending : r.pending = sends text ++ .byte c :: rest) (go : ∀ b ∈ text, stop b = false)
    (stops : stop c = true) (again : more 1 = true) (short : text.length < room) :
    ∃ r', (fill stop more room buffer r).Returns ⟨1, buffer.put (text ++ [c]), text.length, r'⟩ ∧
      r'.Left rest := by
  suffices loop : ∀ (stored : List UInt8) (ret : Int8) (r : Reader),
      r.pending = sends text ++ .byte c :: rest → stored.length + text.length < room →
      ∃ r', (doWhile (fillStep stop more room) ⟨ret, buffer.put stored, stored.length, r⟩).Returns
          ⟨1, buffer.put (stored ++ text ++ [c]), stored.length + text.length, r'⟩ ∧
        r'.Left rest by
    simpa [fill] using loop [] 1 r pending (by simpa using short)
  clear pending short
  induction text with
  | nil =>
      intro stored ret r pending short
      have step := fillStep_stop stop more room (f := ⟨ret, buffer.put stored, stored.length, r⟩) pending
        stops
      have left := readC_left (c := buffer.put stored stored.length) pending
      refine ⟨_, (doWhile_exit (by rw [step])).mpr ?_, left⟩
      rw [step, Mem.put_set]
      simp
  | cons b text ih =>
      intro stored ret r pending short
      rw [sends_cons, List.cons_append] at pending
      rw [List.length_cons] at short
      have step := fillStep_go stop more room (f := ⟨ret, buffer.put stored, stored.length, r⟩) pending
        (go b (by simp))
      obtain ⟨r', run, left⟩ := ih (fun b hb => go b (by simp [hb])) (stored ++ [b]) 1 _
        (readC_left (c := buffer.put stored stored.length) pending).pending (by simp; omega)
      have next : (fillStep stop more room ⟨ret, buffer.put stored, stored.length, r⟩).2 = true := by
        rw [step]
        simp [again]
        omega
      refine ⟨r', (doWhile_next next).mpr ?_, left⟩
      rw [step, Mem.put_set]
      simpa [Nat.add_assoc, Nat.add_comm 1] using run

theorem fill_full {r : Reader} {text : List UInt8} {rest : List GetByte} (buffer : Mem)
    (pending : r.pending = sends text ++ rest) (go : ∀ b ∈ text, stop b = false)
    (again : more 1 = true) (nonempty : text ≠ []) (full : text.length = room) :
    ∃ r', (fill stop more room buffer r).Returns ⟨1, buffer.put text, text.length, r'⟩ ∧
      r'.Left rest := by
  suffices loop : ∀ (stored : List UInt8) (ret : Int8) (r : Reader),
      r.pending = sends text ++ rest → stored.length + text.length = room →
      ∃ r', (doWhile (fillStep stop more room) ⟨ret, buffer.put stored, stored.length, r⟩).Returns
          ⟨1, buffer.put (stored ++ text), stored.length + text.length, r'⟩ ∧ r'.Left rest by
    simpa [fill] using loop [] 1 r pending (by simpa using full)
  clear pending full
  induction text with
  | nil => exact absurd rfl nonempty
  | cons b text ih =>
      intro stored ret r pending full
      rw [sends_cons, List.cons_append] at pending
      rw [List.length_cons] at full
      have step := fillStep_go stop more room (f := ⟨ret, buffer.put stored, stored.length, r⟩) pending
        (go b (by simp))
      by_cases last : text = []
      · have exit : (fillStep stop more room ⟨ret, buffer.put stored, stored.length, r⟩).2 = false := by
          rw [step]
          simp [last] at full
          simp [full]
        have left := readC_left (c := buffer.put stored stored.length) pending
        rw [last, sends_nil, List.nil_append] at left
        refine ⟨_, (doWhile_exit exit).mpr ?_, left⟩
        rw [step, Mem.put_set]
        simp [last]
      · have positive : 0 < text.length := List.length_pos_iff.mpr last
        have next : (fillStep stop more room ⟨ret, buffer.put stored, stored.length, r⟩).2 = true := by
          rw [step]
          simp [again]
          omega
        obtain ⟨r', run, left⟩ := ih (fun b hb => go b (by simp [hb])) last (stored ++ [b]) 1 _
          (readC_left (c := buffer.put stored stored.length) pending).pending (by simp; omega)
        refine ⟨r', (doWhile_next next).mpr ?_, left⟩
        rw [step, Mem.put_set]
        simpa [Nat.add_assoc, Nat.add_comm 1] using run

end Fill

/-! ## Line ends -/

theorem parseEOLStep_byte {t : EolLoop} {b : UInt8} {rest : List GetByte}
    (pending : t.reader.pending = .byte b :: rest) :
    ∃ r', r'.Left rest ∧ parseEOLStep t =
      (⟨1, b, if b = 10 then t.eolCount + 1 else t.eolCount, r'⟩,
        (isSpace b || (if b = 10 then t.eolCount + 1 else t.eolCount) == 0) &&
          (if b = 10 then t.eolCount + 1 else t.eolCount) < 2) := by
  obtain ⟨ret, c⟩ := readC_byte (c := t.c) pending
  refine ⟨_, readC_left (c := t.c) pending, ?_⟩
  have positive : 0 < (1 : Int8).toUInt8 := by decide
  simp only [parseEOLStep, ret, c, positive, decide_true, Bool.and_true]
  rfl

section EndOfLine
variable {post : EolLoop → Prop}

theorem parseEOL_junk {t : EolLoop} {junk : List UInt8} {rest : List GetByte}
    (pending : t.reader.pending = sends junk ++ rest) (count : t.eolCount = 0)
    (none : ∀ b ∈ junk, b ≠ 10)
    (next : ∀ t', t'.eolCount = 0 → t'.reader.pending = rest →
      ∃ u, (doWhile parseEOLStep t').Returns u ∧ post u) :
    ∃ u, (doWhile parseEOLStep t).Returns u ∧ post u := by
  induction junk generalizing t with
  | nil => exact next t count pending
  | cons b junk ih =>
      rw [sends_cons, List.cons_append] at pending
      obtain ⟨r', left, step⟩ := parseEOLStep_byte pending
      rw [if_neg (none b (by simp)), count] at step
      have again : (parseEOLStep t).2 = true := by
        rw [step]
        simp
      obtain ⟨u, run, done⟩ := ih (t := (parseEOLStep t).1) (by rw [step]; exact left.pending)
        (by rw [step]) (fun b hb => none b (by simp [hb]))
      exact ⟨u, (doWhile_next again).mpr run, done⟩

theorem parseEOL_newline {t : EolLoop} {rest : List GetByte}
    (pending : t.reader.pending = .byte 10 :: rest) (count : t.eolCount = 0)
    (next : ∀ t', t'.eolCount = 1 → t'.reader.pending = rest →
      ∃ u, (doWhile parseEOLStep t').Returns u ∧ post u) :
    ∃ u, (doWhile parseEOLStep t).Returns u ∧ post u := by
  obtain ⟨r', left, step⟩ := parseEOLStep_byte pending
  rw [if_pos rfl, count] at step
  have again : (parseEOLStep t).2 = true := by
    rw [step]
    rfl
  obtain ⟨u, run, done⟩ := next (parseEOLStep t).1 (by rw [step]) (by rw [step]; exact left.pending)
  exact ⟨u, (doWhile_next again).mpr run, done⟩

theorem parseEOL_spaces {t : EolLoop} {spaces : List UInt8} {rest : List GetByte}
    (pending : t.reader.pending = sends spaces ++ rest) (count : t.eolCount = 1)
    (space : ∀ b ∈ spaces, isSpace b ∧ b ≠ 10)
    (next : ∀ t', t'.eolCount = 1 → t'.reader.pending = rest →
      ∃ u, (doWhile parseEOLStep t').Returns u ∧ post u) :
    ∃ u, (doWhile parseEOLStep t).Returns u ∧ post u := by
  induction spaces generalizing t with
  | nil => exact next t count pending
  | cons b spaces ih =>
      rw [sends_cons, List.cons_append] at pending
      obtain ⟨r', left, step⟩ := parseEOLStep_byte pending
      rw [if_neg (space b (by simp)).2, count] at step
      have again : (parseEOLStep t).2 = true := by
        rw [step]
        simp [(space b (by simp)).1]
      obtain ⟨u, run, done⟩ := ih (t := (parseEOLStep t).1) (by rw [step]; exact left.pending)
        (by rw [step]) (fun b hb => space b (by simp [hb]))
      exact ⟨u, (doWhile_next again).mpr run, done⟩

end EndOfLine

theorem parseEOL_line {r : Reader} {q : Request} {junk : List UInt8} {c : UInt8}
    {rest : List GetByte} (pending : r.pending = sends junk ++ .byte 10 :: .byte c :: rest)
    (none : ∀ b ∈ junk, b ≠ 10) (stop : isSpace c = false) (nonzero : c ≠ 0) :
    ∃ r', (parseEOL r q).Returns ⟨1, r', q⟩ ∧ r'.pending = .byte c :: rest := by
  have newline : c ≠ 10 := by
    intro equal
    rw [equal] at stop
    exact absurd stop (by decide)
  have loop : ∃ u, (doWhile parseEOLStep ⟨1, r.frame 0, 0, r.enter⟩).Returns u ∧
      u.ret = 1 ∧ u.c = c ∧ u.eolCount = 1 ∧ u.reader.Left rest := by
    apply parseEOL_junk pending rfl none
    intro t count pending
    apply parseEOL_newline pending count
    intro t count pending
    obtain ⟨r', left, step⟩ := parseEOLStep_byte pending
    rw [if_neg newline, count] at step
    have exit : (parseEOLStep t).2 = false := by
      rw [step]
      simp [stop]
    refine ⟨_, (doWhile_exit exit).mpr rfl, ?_⟩
    rw [step]
    exact ⟨rfl, rfl, rfl, left⟩
  obtain ⟨u, run, ret, last, count, left⟩ := loop
  refine ⟨pushC c u.reader, run.bind (returns_pure.mpr ?_), (pushC_left left nonzero).2⟩
  simp [ret, last, count]

theorem parseEOL_empty {r : Reader} {q : Request} {junk spaces : List UInt8} {rest : List GetByte}
    (pending : r.pending = sends junk ++ .byte 10 :: (sends spaces ++ .byte 10 :: rest))
    (none : ∀ b ∈ junk, b ≠ 10) (space : ∀ b ∈ spaces, isSpace b ∧ b ≠ 10) :
    ∃ r', (parseEOL r q).Returns ⟨1, r', { q with headersDone := true }⟩ ∧ r'.input = rest ∧
      r'.pending = .byte 10 :: rest := by
  have loop : ∃ u, (doWhile parseEOLStep ⟨1, r.frame 0, 0, r.enter⟩).Returns u ∧
      u.ret = 1 ∧ u.c = 10 ∧ u.eolCount = 2 ∧ u.reader.Left rest := by
    apply parseEOL_junk pending rfl none
    intro t count pending
    apply parseEOL_newline pending count
    intro t count pending
    apply parseEOL_spaces pending count space
    intro t count pending
    obtain ⟨r', left, step⟩ := parseEOLStep_byte pending
    rw [if_pos rfl, count] at step
    have exit : (parseEOLStep t).2 = false := by
      rw [step]
      rfl
    refine ⟨_, (doWhile_exit exit).mpr rfl, ?_⟩
    rw [step]
    exact ⟨rfl, rfl, rfl, left⟩
  obtain ⟨u, run, ret, last, count, left⟩ := loop
  have back := pushC_left left (show (10 : UInt8) ≠ 0 by decide)
  refine ⟨pushC 10 u.reader, run.bind (returns_pure.mpr ?_), back.1, back.2⟩
  simp [ret, last, count]

/-! ## The request line -/

def urlCells (target : List UInt8) : List UInt8 := target.map fun b => if b = 63 then 0 else b

def lastQuery : List UInt8 → Option Nat
  | [] => none
  | b :: target =>
      match lastQuery target with
      | some k => some (k + 1)
      | none => if b = 63 then some 1 else none

@[simp]
theorem length_urlCells (target : List UInt8) : (urlCells target).length = target.length := by
  simp [urlCells]

theorem lastQuery_append (target : List UInt8) (b : UInt8) :
    lastQuery (target ++ [b]) = if b = 63 then some (target.length + 1) else lastQuery target := by
  induction target with
  | nil => rfl
  | cons c target ih =>
      rw [List.cons_append, lastQuery, ih]
      by_cases query : b = 63
      · simp [query]
      · simp [query, lastQuery]

def Request.withTarget (q : Request) (target : List UInt8) : Request :=
  { q with
    url := q.url.put (urlCells target)
    urlParams := ((lastQuery target).map UrlPtr.url).getD q.urlParams
    urlParamsStart := (lastQuery target).getD q.urlParamsStart
    urlLen := target.length }

theorem withTarget_cell (q : Request) (done : List UInt8) (b : UInt8) :
    (q.withTarget done).url.set (q.withTarget done).urlLen b = q.url.put (urlCells done ++ [b]) := by
  rw [← Mem.put_set, length_urlCells]
  rfl

theorem withTarget_query (q : Request) (done : List UInt8) :
    { q.withTarget done with
      url := ((q.withTarget done).url.set (q.withTarget done).urlLen 63).set
        (q.withTarget done).urlLen 0
      urlParams := .url ((q.withTarget done).urlLen + 1)
      urlParamsStart := (q.withTarget done).urlLen + 1
      urlLen := (q.withTarget done).urlLen + 1 } = q.withTarget (done ++ [63]) := by
  have cells : ((q.withTarget done).url.set (q.withTarget done).urlLen 63).set
      (q.withTarget done).urlLen 0 = q.url.put (urlCells done ++ [0]) := by
    rw [withTarget_cell, ← Mem.put_append_set q.url (urlCells done) 63 0, length_urlCells]
    rfl
  rw [cells]
  simp [Request.withTarget, lastQuery_append, urlCells]

theorem withTarget_append (q : Request) (done : List UInt8) {b : UInt8} (other : b ≠ 63) :
    { q.withTarget done with
      url := (q.withTarget done).url.set (q.withTarget done).urlLen b
      urlLen := (q.withTarget done).urlLen + 1 } = q.withTarget (done ++ [b]) := by
  rw [withTarget_cell]
  simp [Request.withTarget, lastQuery_append, urlCells, other]

theorem parseURLStep_byte (cfg : Config) (q : Request) (ret : Int8) (done : List UInt8) {r : Reader}
    {b : UInt8} {rest : List GetByte} (pending : r.pending = .byte b :: rest)
    (nonblank : isBlank b = false) :
    ∃ r' : Reader, r'.Left rest ∧ parseURLStep cfg ⟨ret, r, q.withTarget done⟩ =
      (⟨1, r', q.withTarget (done ++ [b])⟩,
        decide (done.length + 1 < cfg.urlBufferSize - 1)) := by
  obtain ⟨ret, c⟩ := readC_byte (c := (q.withTarget done).url (q.withTarget done).urlLen) pending
  refine ⟨_, readC_left (c := (q.withTarget done).url (q.withTarget done).urlLen) pending, ?_⟩
  have one : (1 : Int8) ≠ 0 := by decide
  by_cases query : b = 63
  · rw [query] at c nonblank ⊢
    rw [← withTarget_query]
    simp only [parseURLStep, ret, c, nonblank, one, Bool.false_eq_true, if_false, if_true, ne_eq,
      not_false_eq_true, decide_true, Bool.true_and]
    rfl
  · rw [← withTarget_append q done query]
    simp only [parseURLStep, ret, c, nonblank, one, Bool.false_eq_true, if_false, if_neg query,
      ne_eq, not_false_eq_true, decide_true, Bool.true_and]
    rfl

theorem parseURLStep_blank (cfg : Config) (q : Request) (ret : Int8) (done : List UInt8) {r : Reader}
    {b : UInt8} {rest : List GetByte} (pending : r.pending = .byte b :: rest)
    (blank : isBlank b = true) :
    ∃ r' : Reader, r'.Left rest ∧ parseURLStep cfg ⟨ret, r, q.withTarget done⟩ =
      (⟨1, r', { q.withTarget done with url := q.url.put (urlCells done ++ [b]) }⟩, false) := by
  obtain ⟨ret, c⟩ := readC_byte (c := (q.withTarget done).url (q.withTarget done).urlLen) pending
  refine ⟨_, readC_left (c := (q.withTarget done).url (q.withTarget done).urlLen) pending, ?_⟩
  rw [← withTarget_cell]
  simp only [parseURLStep, ret, c, blank, if_true]

theorem urlLoop_text {cfg : Config} {q : Request} {target : List UInt8} {c : UInt8}
    {rest : List GetByte} (nonblank : ∀ b ∈ target, isBlank b = false) (blank : isBlank c = true)
    (ret : Int8) (r : Reader) (done : List UInt8)
    (pending : r.pending = sends target ++ .byte c :: rest)
    (short : done.length + target.length < cfg.urlBufferSize - 1) :
    ∃ r' : Reader, (doWhile (parseURLStep cfg) ⟨ret, r, q.withTarget done⟩).Returns ⟨1, r',
        { q.withTarget (done ++ target) with
          url := q.url.put (urlCells (done ++ target) ++ [c]) }⟩ ∧ r'.Left rest := by
  induction target generalizing ret r done with
  | nil =>
      obtain ⟨r', left, step⟩ := parseURLStep_blank cfg q ret done pending blank
      refine ⟨r', (doWhile_exit (by rw [step])).mpr ?_, left⟩
      rw [step, List.append_nil]
  | cons b target ih =>
      rw [sends_cons, List.cons_append] at pending
      rw [List.length_cons] at short
      obtain ⟨r₁, left, step⟩ := parseURLStep_byte cfg q ret done pending
        (nonblank b (by simp))
      have again : (parseURLStep cfg ⟨ret, r, q.withTarget done⟩).2 = true := by
        rw [step]
        exact decide_eq_true (by omega)
      obtain ⟨r', run, left⟩ := ih (fun b hb => nonblank b (by simp [hb])) 1 r₁ (done ++ [b])
        left.pending (by simp; omega)
      refine ⟨r', (doWhile_next again).mpr ?_, left⟩
      rw [step]
      simpa using run

theorem urlLoop_full {cfg : Config} {q : Request} {target : List UInt8} {rest : List GetByte}
    (nonblank : ∀ b ∈ target, isBlank b = false) (nonempty : target ≠ []) (ret : Int8) (r : Reader)
    (done : List UInt8) (pending : r.pending = sends target ++ rest)
    (full : done.length + target.length = cfg.urlBufferSize - 1) :
    ∃ r' : Reader, (doWhile (parseURLStep cfg) ⟨ret, r, q.withTarget done⟩).Returns
        ⟨1, r', q.withTarget (done ++ target)⟩ ∧ r'.Left rest := by
  induction target generalizing ret r done with
  | nil => exact absurd rfl nonempty
  | cons b target ih =>
      rw [sends_cons, List.cons_append] at pending
      rw [List.length_cons] at full
      obtain ⟨r₁, left, step⟩ := parseURLStep_byte cfg q ret done pending
        (nonblank b (by simp))
      by_cases last : target = []
      · have exit : (parseURLStep cfg ⟨ret, r, q.withTarget done⟩).2 = false := by
          rw [step]
          rw [last, List.length_nil] at full
          exact decide_eq_false (by omega)
        rw [last, sends_nil, List.nil_append] at left
        refine ⟨r₁, (doWhile_exit exit).mpr ?_, left⟩
        rw [step, last]
      · have positive : 0 < target.length := List.length_pos_iff.mpr last
        have again : (parseURLStep cfg ⟨ret, r, q.withTarget done⟩).2 = true := by
          rw [step]
          exact decide_eq_true (by omega)
        obtain ⟨r', run, left⟩ := ih (fun b hb => nonblank b (by simp [hb])) last 1 r₁
          (done ++ [b]) left.pending (by simp; omega)
        refine ⟨r', (doWhile_next again).mpr ?_, left⟩
        rw [step]
        simpa using run

theorem dropLoop_text {g : Got} {text : List UInt8} {c : UInt8} {rest : List GetByte}
    (nonblank : ∀ b ∈ text, isBlank b = false) (blank : isBlank c = true)
    (pending : g.reader.pending = sends text ++ .byte c :: rest) (success : g.ret ≠ 0)
    (first : isBlank g.c = false) :
    ∃ r' : Reader, (whileDo (fun g => g.ret ≠ 0 && !isBlank g.c) (fun g => readC g.c g.reader) g).Returns
        ⟨1, c, r'⟩ ∧ r'.Left rest := by
  induction text generalizing g with
  | nil =>
      obtain ⟨ret, last⟩ := readC_byte (c := g.c) pending
      refine ⟨(readC g.c g.reader).reader, ?_, readC_left pending⟩
      rw [whileDo_next (by simp [success, first]), whileDo_stop (by rw [last, blank]; simp)]
      rw [← ret, ← last]
  | cons b text ih =>
      rw [sends_cons, List.cons_append] at pending
      obtain ⟨ret, last⟩ := readC_byte (c := g.c) pending
      obtain ⟨r', run, left⟩ := ih (g := readC g.c g.reader) (fun b hb => nonblank b (by simp [hb]))
        (readC_left pending).pending (by rw [ret]; decide) (by rw [last]; exact nonblank b (by simp))
      refine ⟨r', ?_, left⟩
      rw [whileDo_next (by simp [success, first])]
      exact run

/-- The request after a whole target: what fits is kept, with its terminator. -/
def Request.target (cfg : Config) (q : Request) (target : List UInt8) : Request :=
  let kept := target.take (cfg.urlBufferSize - 1)
  { q.withTarget kept with url := q.url.put (urlCells kept ++ [0]) }

theorem isBlank_zero : isBlank 0 = false := by decide

theorem parseURL_text {cfg : Config} {r : Reader} {q : Request} {blanks target : List UInt8}
    {c : UInt8} {rest : List GetByte}
    (pending : r.pending = sends blanks ++ (sends target ++ .byte c :: rest))
    (gap : ∀ b ∈ blanks, isBlank b) (nonempty : target ≠ [])
    (plain : ∀ b ∈ target, isBlank b = false ∧ b ≠ 0) (blank : isBlank c = true)
    (last : isBlank (q.url (cfg.urlBufferSize - 1)) = false) :
    ∃ r', (parseURL cfg r q).Returns ⟨1, r', q.target cfg target⟩ ∧
      r'.pending = .byte c :: rest := by
  have nonblank : ∀ b ∈ target, isBlank b = false := fun b hb => (plain b hb).1
  have nonzero : c ≠ 0 := by
    intro zero
    rw [zero] at blank
    exact absurd blank (by decide)
  obtain ⟨t, space, ret, text⟩ := parseSpace_token pending gap nonempty plain
  have positive : (0 : Int8) < 1 := by decide
  simp only [parseURL, space.bind_iff, ret, if_pos positive]
  by_cases short : target.length < cfg.urlBufferSize - 1
  · have kept : target.take (cfg.urlBufferSize - 1) = target := List.take_of_length_le short.le
    obtain ⟨r₁, loop, left⟩ := urlLoop_text (q := q) nonblank blank 1 t.reader [] text (by simpa)
    rw [List.nil_append] at loop
    have cell : (q.url.put (urlCells target ++ [c])) target.length = c := by
      rw [Mem.put_of_lt _ (by simp)]
      simp
    refine ⟨pushC c r₁, (Returns.bind_iff loop).mpr ?_, (pushC_left left nonzero).2⟩
    have stop : (whileDo (fun g => g.ret ≠ 0 && !isBlank g.c) (fun g => readC g.c g.reader)
        ⟨1, (q.url.put (urlCells target ++ [c])) target.length, r₁⟩).Returns ⟨1, c, r₁⟩ := by
      rw [whileDo_stop (by rw [cell, blank]; simp), cell]
    refine stop.bind (returns_pure.mpr ?_)
    have ended := Mem.put_append_set q.url (urlCells target) c 0
    rw [length_urlCells] at ended
    simp only [Request.target, kept, ← ended]
    rfl
  · have room := cfg.url_ge
    have size : (target.take (cfg.urlBufferSize - 1)).length = cfg.urlBufferSize - 1 := by
      rw [List.length_take]
      omega
    have split : sends target ++ .byte c :: rest = sends (target.take (cfg.urlBufferSize - 1)) ++
        (sends (target.drop (cfg.urlBufferSize - 1)) ++ .byte c :: rest) := by
      rw [← List.append_assoc, ← sends_append, List.take_append_drop]
    rw [split] at text
    obtain ⟨r₁, loop, left⟩ := urlLoop_full (q := q)
      (fun b hb => nonblank b (List.mem_of_mem_take hb))
      (List.ne_nil_of_length_pos (by rw [size]; omega)) 1 t.reader [] text
      (by rw [List.length_nil, Nat.zero_add]; exact size)
    rw [List.nil_append] at loop
    have cell : (q.withTarget (target.take (cfg.urlBufferSize - 1))).url
        (q.withTarget (target.take (cfg.urlBufferSize - 1))).urlLen =
          q.url (cfg.urlBufferSize - 1) := by
      simp only [Request.withTarget, size]
      exact Mem.put_of_le _ (by rw [length_urlCells, size])
    obtain ⟨r', drop, left⟩ := dropLoop_text
      (g := ⟨1, (q.withTarget (target.take (cfg.urlBufferSize - 1))).url
        (q.withTarget (target.take (cfg.urlBufferSize - 1))).urlLen, r₁⟩)
      (fun b hb => nonblank b (List.mem_of_mem_drop hb)) blank left.pending
      (show (1 : Int8) ≠ 0 by decide) (by rw [cell]; exact last)
    refine ⟨pushC c r', (Returns.bind_iff loop).mpr ?_, (pushC_left left nonzero).2⟩
    refine drop.bind (returns_pure.mpr ?_)
    have ended := withTarget_cell q (target.take (cfg.urlBufferSize - 1)) 0
    simp only [Request.target, ended]

/-! ## The tokens -/

theorem method_name : ∀ m ∈ knownMethods, m.name ≠ [] ∧ m.name.length < tokenSize - 1 ∧
    ∀ b ∈ m.name, isBlank b = false ∧ b ≠ 0 := by
  decide

theorem findMethod_name {m : HttpMethod} (known : m ∈ knownMethods) (buffer : Mem) :
    findMethod (buffer.put (m.name ++ [0])) = some m := by
  have token : (buffer.put (m.name ++ [0])).cstr tokenSize = m.name.take tokenSize :=
    Mem.cstr_put buffer (fun b hb => ((method_name m known).2.2 b hb).2) tokenSize
  have compare : (fun m' : HttpMethod => strncmpEq (.ofBytes m'.name) (buffer.put (m.name ++ [0]))
      tokenSize) = fun m' => (Mem.ofBytes m'.name).cstr tokenSize == m.name.take tokenSize := by
    funext m'
    rw [strncmpEq, token]
  have names : ∀ m ∈ knownMethods, knownMethods.find? (fun m' =>
      (Mem.ofBytes m'.name).cstr tokenSize == m.name.take tokenSize) = some m := by
    decide
  rw [findMethod, compare]
  exact names m known

theorem parseMethod_text {r : Reader} {q : Request} {m : HttpMethod} {c : UInt8}
    {rest : List GetByte} (known : m ∈ knownMethods)
    (pending : r.pending = sends m.name ++ .byte c :: rest) (blank : isBlank c = true) :
    ∃ r', (parseMethod r q).Returns ⟨1, r', { q with method := m }⟩ ∧ r'.pending = rest := by
  obtain ⟨nonempty, short, plain⟩ := method_name m known
  obtain ⟨t, space, ret, text⟩ := parseSpace_token (r := r.enter)
    (show r.pending = sends [] ++ _ from pending) (by simp) nonempty plain
  obtain ⟨r', token, left⟩ := fill_text isBlank (fun ret => 0 < ret) r.frame text
    (fun b hb => (plain b hb).1) blank (by decide) short
  have ended := Mem.put_append_set r.frame m.name c 0
  refine ⟨r', ?_, left.pending⟩
  have positive : (0 : Int8) < 1 := by decide
  simp only [parseMethod, space.bind_iff, ret, if_pos positive, token.bind_iff, ended,
    findMethod_name known, returns_pure]

/-- The version a token stands for: `strncmp` looks only at as many characters as were read. -/
def versionOf (token : List UInt8) : HttpVersion :=
  if token <+: httpVersion10 then .v1_0
  else if token <+: httpVersion11 then .v1_1
  else .unknown

theorem findVersion_token {token : List UInt8} (nonzero : ∀ b ∈ token, b ≠ 0) (buffer : Mem) :
    findVersion (buffer.put (token ++ [0])) token.length = versionOf token := by
  have read : (buffer.put (token ++ [0])).cstr token.length = token := by
    rw [Mem.cstr_put buffer nonzero, List.take_length]
  have compare {version : List UInt8} (plain : ∀ b ∈ version, b ≠ 0) :
      strncmpEq (.ofBytes version) (buffer.put (token ++ [0])) token.length = true ↔
        token <+: version := by
    rw [strncmpEq, read, Mem.cstr_ofBytes plain, beq_iff_eq, List.prefix_iff_eq_take, eq_comm]
  simp only [findVersion, versionOf, compare (show ∀ b ∈ httpVersion10, b ≠ 0 by decide),
    compare (show ∀ b ∈ httpVersion11, b ≠ 0 by decide)]

theorem parseVersion_text {r : Reader} {q : Request} {blanks token : List UInt8} {c : UInt8}
    {rest : List GetByte}
    (pending : r.pending = sends blanks ++ (sends token ++ .byte c :: rest))
    (gap : ∀ b ∈ blanks, isBlank b) (nonempty : token ≠ []) (short : token.length < tokenSize - 1)
    (plain : ∀ b ∈ token, isSpace b = false ∧ b ≠ 0) (space : isSpace c = true) :
    ∃ r', r'.pending = .byte c :: rest ∧ ∀ p, (parseVersion r q).Returns p ↔
      (parseEOL r' { q with version := versionOf token }).Returns p := by
  have nonzero : c ≠ 0 := by
    intro zero
    rw [zero] at space
    exact absurd space (by decide)
  have nonblank (b : UInt8) (member : b ∈ token) : isBlank b = false := by
    by_contra blank
    rw [Bool.not_eq_false] at blank
    exact absurd ((plain b member).1.symm.trans (isSpace_of_isBlank blank)) (by decide)
  obtain ⟨t, skip, ret, text⟩ := parseSpace_token (r := r.enter) pending gap nonempty
    fun b member => ⟨nonblank b member, (plain b member).2⟩
  obtain ⟨r', fills, left⟩ := fill_text isSpace (fun ret => ret ≠ 0) r.frame text
    (fun b hb => (plain b hb).1) space (by decide) short
  have ended := Mem.put_append_set r.frame token c 0
  have cell : (r.frame.put (token ++ [c])) token.length = c := by
    rw [Mem.put_of_lt _ (by simp)]
    simp
  refine ⟨pushC c r', (pushC_left left nonzero).2, fun p => ?_⟩
  have positive : (0 : Int8) < 1 := by decide
  simp only [parseVersion, skip.bind_iff, ret, if_pos positive, fills.bind_iff, ended, cell,
    findVersion_token (fun b hb => (plain b hb).2)]

end AttoHTTP
