import AttoHTTP.Proof.Truncation

/-!
# The lines of a text that may break off

The request line and the header lines are told by the text. Only where the version fills its buffer
does it matter whether the byte in the cell behind it is a newline.
-/

namespace AttoHTTP
open Library Comp

/-! ## Line ends -/

/-- What follows the newline of a line, without the spaces at its front. -/
def afterNewline : List UInt8 → Option (List UInt8)
  | [] => none
  | c :: text =>
      if c = 10 then none else if isSpace c then afterNewline text else some (dropNul (c :: text))

/-- The line after this one. There is none if it is empty or does not come. -/
def afterLine : List UInt8 → Option (List UInt8)
  | [] => none
  | c :: text => if c = 10 then afterNewline text else afterLine text

theorem afterLine_append {junk text : List UInt8} (none : ∀ b ∈ junk, b ≠ 10) :
    afterLine (junk ++ text) = afterLine text := by
  induction junk with
  | nil => rfl
  | cons b junk ih =>
      rw [List.cons_append, afterLine, if_neg (none b (by simp))]
      exact ih fun b member => none b (by simp [member])

theorem afterLine_short {text : List UInt8} (short : text.length ≤ 1) : afterLine text = none := by
  cases text with
  | nil => rfl
  | cons c rest =>
      obtain rfl : rest = [] := List.length_eq_zero_iff.mp (by simpa using short)
      simp [afterLine, afterNewline]

theorem afterNewline_shorter {text next : List UInt8} (more : afterNewline text = some next) :
    next.length ≤ text.length := by
  induction text with
  | nil => cases more
  | cons c text ih =>
      rw [afterNewline] at more
      split at more
      · cases more
      · split at more
        · exact (ih more).trans (by simp)
        · rw [← Option.some.inj more, dropNul]
          split <;> simp

theorem afterLine_shorter {text next : List UInt8} (more : afterLine text = some next) :
    next.length < text.length := by
  induction text with
  | nil => cases more
  | cons c text ih =>
      rw [afterLine] at more
      rw [List.length_cons]
      split at more
      · exact Nat.lt_succ_of_le (afterNewline_shorter more)
      · exact Nat.lt_succ_of_lt (ih more)

inductive EndsLine : Option (List UInt8) → Request → Parsed → Prop
  | more {next : List UInt8} {q : Request} {p : Parsed} (ret : p.ret = 1) (request : p.request = q)
      (sent : p.reader.Sent next) : EndsLine (some next) q p
  | finished {q : Request} {p : Parsed} (request : p.request = { q with headersDone := true }) :
      EndsLine none q p
  | ended {q : Request} {p : Parsed} (ret : p.ret = 0) (request : p.request = q)
      (sent : p.reader.Sent []) : EndsLine none q p

def EolLoop.parsed (q : Request) (t : EolLoop) : Parsed :=
  ⟨t.ret.toInt8, pushC t.c t.reader, if 1 < t.eolCount then { q with headersDone := true } else q⟩

theorem parseEOLStep_end {t : EolLoop} (sent : t.reader.Sent []) :
    (parseEOLStep t).2 = false ∧ (parseEOLStep t).1.ret = 0 ∧ (parseEOLStep t).1.c = 0 ∧
      (parseEOLStep t).1.eolCount = t.eolCount ∧
      (pushC (parseEOLStep t).1.c (parseEOLStep t).1.reader).Sent [] := by
  have zero : ¬ (0 : UInt8) = 10 := by decide
  simp only [parseEOLStep, readC_ret, readC_c, sent.next_nil, GetByte.ret, GetByte.store, if_neg zero]
  refine ⟨?_, rfl, trivial, trivial, ?_, ?_⟩
  · simp [show ¬ 0 < (0 : Int8).toUInt8 by decide]
  · simp [sent.pending]
  · rw [pushC_atEnd, readC_atEnd, sent.atEnd]

theorem endsLine_end {q : Request} {t u : EolLoop} (sent : t.reader.Sent []) (count : t.eolCount < 2)
    (h : (doWhile parseEOLStep t).Returns u) : EndsLine none q (u.parsed q) := by
  obtain ⟨stop, ret, -, same, left⟩ := parseEOLStep_end sent
  rw [doWhile_exit stop] at h
  rw [h]
  refine .ended ?_ ?_ left
  · change (parseEOLStep t).1.ret.toInt8 = 0
    rw [ret]
    rfl
  · exact if_neg (by omega)

theorem pushC_sent {r : Reader} {text : List UInt8} (left : r.Left (sends text))
    (atEnd : r.atEnd = .zero) (c : UInt8) : (pushC c r).Sent (dropNul (c :: text)) := by
  refine ⟨?_, atEnd⟩
  rw [pushC_pending, left.input, dropNul]
  split <;> rfl

theorem afterNewline_loop {q : Request} {text : List UInt8} {t u : EolLoop} (sent : t.reader.Sent text)
    (count : t.eolCount = 1) (h : (doWhile parseEOLStep t).Returns u) :
    EndsLine (afterNewline text) q (u.parsed q) := by
  induction text generalizing t with
  | nil => exact endsLine_end sent (by omega) h
  | cons c text ih =>
      obtain ⟨r, left, step⟩ := @parseEOLStep_byte t c (sends text) sent.pending
      have atEnd : r.atEnd = .zero := by
        rw [show r = (parseEOLStep t).1.reader by rw [step]]
        exact (readC_atEnd _ _).trans sent.atEnd
      rw [afterNewline]
      by_cases newline : c = 10
      · rw [if_pos newline, count] at step
        have stop : (parseEOLStep t).2 = false := by
          rw [step]
          simp
        rw [doWhile_exit stop, step] at h
        rw [if_pos newline, h]
        exact .finished rfl
      · rw [if_neg newline, count] at step
        rw [if_neg newline]
        by_cases space : isSpace c = true
        · have again : (parseEOLStep t).2 = true := by
            rw [step]
            simp [space]
          rw [doWhile_next again, step] at h
          rw [if_pos space]
          exact ih ⟨left.pending, atEnd⟩ rfl h
        · have stop : (parseEOLStep t).2 = false := by
            rw [step]
            simp [space]
          rw [doWhile_exit stop, step] at h
          rw [if_neg space, h]
          exact .more rfl rfl (pushC_sent left atEnd c)

theorem afterLine_loop {q : Request} {text : List UInt8} {t u : EolLoop} (sent : t.reader.Sent text)
    (count : t.eolCount = 0) (h : (doWhile parseEOLStep t).Returns u) :
    EndsLine (afterLine text) q (u.parsed q) := by
  induction text generalizing t with
  | nil => exact endsLine_end sent (by omega) h
  | cons c text ih =>
      obtain ⟨r, left, step⟩ := @parseEOLStep_byte t c (sends text) sent.pending
      have after : r.Sent text := by
        refine ⟨left.pending, ?_⟩
        rw [show r = (parseEOLStep t).1.reader by rw [step]]
        exact (readC_atEnd _ _).trans sent.atEnd
      rw [afterLine]
      by_cases newline : c = 10
      · rw [if_pos newline, count] at step
        have again : (parseEOLStep t).2 = true := by
          rw [step, newline]
          rfl
        rw [doWhile_next again, step] at h
        rw [if_pos newline]
        exact afterNewline_loop after rfl h
      · rw [if_neg newline, count] at step
        have again : (parseEOLStep t).2 = true := by
          rw [step]
          simp
        rw [doWhile_next again, step] at h
        rw [if_neg newline]
        exact ih after rfl h

theorem parseEOL_sent {r : Reader} {q : Request} {text : List UInt8} (sent : r.Sent text) {p : Parsed}
    (h : (parseEOL r q).Returns p) : EndsLine (afterLine text) q p := by
  obtain ⟨t, loop, h⟩ := returns_bind.mp h
  rw [returns_pure.mp h]
  exact afterLine_loop (t := ⟨1, r.frame 0, 0, r.enter⟩) ⟨sent.pending, sent.atEnd⟩ rfl loop

/-! ## The target -/

theorem urlLoop_ended {cfg : Config} {q : Request} {target : List UInt8}
    (nonblank : ∀ b ∈ target, isBlank b = false) {ret : Int8} {r : Reader} {done : List UInt8}
    (sent : r.Sent target) (short : done.length + target.length < cfg.urlBufferSize - 1) {u : Parsed}
    (h : (doWhile (parseURLStep cfg) ⟨ret, r, q.withTarget done⟩).Returns u) :
    u.ret = 0 ∧ u.request = q.withTarget (done ++ target ++ [0]) ∧ u.reader.Left [] := by
  induction target generalizing ret r done with
  | nil =>
      have other : ¬ (0 : UInt8) = 63 := by decide
      have step : (parseURLStep cfg ⟨ret, r, q.withTarget done⟩).2 = false ∧
          (parseURLStep cfg ⟨ret, r, q.withTarget done⟩).1.ret = 0 ∧
          (parseURLStep cfg ⟨ret, r, q.withTarget done⟩).1.request = q.withTarget (done ++ [0]) := by
        rw [← withTarget_append q done other]
        simp only [parseURLStep, readC_ret, readC_c, sent.next_nil, GetByte.ret, GetByte.store,
          isBlank_zero, Bool.false_eq_true, if_false, if_neg other]
        exact ⟨rfl, trivial, trivial⟩
      rw [doWhile_exit step.1] at h
      rw [h, List.append_nil]
      refine ⟨step.2.1, step.2.2, ?_⟩
      rw [parseURLStep_reader]
      constructor <;> simp [sent.pending]
  | cons b target ih =>
      rw [List.length_cons] at short
      obtain ⟨r₁, left, step⟩ := @parseURLStep_byte cfg q ret done r b (sends target) sent.pending
        (nonblank b (by simp))
      have again : (parseURLStep cfg ⟨ret, r, q.withTarget done⟩).2 = true := by
        rw [step]
        exact decide_eq_true (by omega)
      have atEnd : r₁.atEnd = .zero := by
        rw [show r₁ = (parseURLStep cfg ⟨ret, r, q.withTarget done⟩).1.reader by rw [step],
          parseURLStep_reader]
        exact (readC_atEnd _ _).trans sent.atEnd
      rw [doWhile_next again, step] at h
      have rest := @ih (fun b hb => nonblank b (by simp [hb])) 1 r₁ (done ++ [b])
        ⟨left.pending, atEnd⟩ (by simp; omega) h
      simpa using rest

theorem dropLoop_sent {text : List UInt8} {g t : Got} (sent : g.reader.Sent text)
    (success : g.ret ≠ 0) (first : isBlank g.c = false)
    (h : (whileDo (fun g => g.ret ≠ 0 && !isBlank g.c) (fun g => readC g.c g.reader) g).Returns t) :
    (pushC t.c t.reader).Sent (text.dropWhile fun b => !isBlank b) := by
  induction text generalizing g with
  | nil =>
      rw [whileDo_next (by simp [success, first]),
        whileDo_stop (by simp [sent.next_nil, GetByte.ret])] at h
      have left : (readC g.c g.reader).reader.Left (sends []) := by
        constructor <;> simp [sent.pending]
      have back := pushC_sent left ((readC_atEnd _ _).trans sent.atEnd) 0
      rw [h, readC_c, sent.next_nil]
      exact back
  | cons b text ih =>
      obtain ⟨ret, c⟩ := @readC_byte g.c g.reader b (sends text) sent.pending
      rw [whileDo_next (by simp [success, first])] at h
      cases blank : isBlank b with
      | true =>
          rw [whileDo_stop (by rw [c, blank]; simp)] at h
          have back := pushC_sent (@readC_left g.c g.reader (.byte b) (sends text) sent.pending)
            ((readC_atEnd _ _).trans sent.atEnd) b
          have nonzero : b ≠ 0 := by
            intro zero
            rw [zero] at blank
            cases blank
          rw [dropNul, if_neg nonzero] at back
          rw [h, c, List.dropWhile_cons_of_neg (by simp [blank])]
          exact back
      | false =>
          rw [List.dropWhile_cons_of_pos (by simp [blank])]
          exact ih (readC_sent sent g.c) (by rw [ret]; decide) (by rw [c, blank]) h

def targetRest (text : List UInt8) : List UInt8 := (skipSpace text).dropWhile fun b => !isBlank b

def targetCells (cfg : Config) (text : List UInt8) : List UInt8 :=
  urlCells (filled isBlank (cfg.urlBufferSize - 1) (skipSpace text))

/-- The first header line. A newline that is pushed back behind a version that fills its buffer makes
one of the rest of the version. -/
def headText (pushed : Bool) (text : List UInt8) : Option (List UInt8) :=
  let version := skipSpace text
  if pushed = true ∧ tokenSize - 1 ≤ (version.takeWhile fun b => !isSpace b).length then
    afterLine (10 :: version.drop (tokenSize - 1))
  else afterLine version

theorem length_dropNul (text : List UInt8) : (dropNul text).length ≤ text.length := by
  unfold dropNul
  split
  · exact le_rfl
  · split <;> simp

theorem length_skipSpace (text : List UInt8) : (skipSpace text).length ≤ text.length :=
  (length_dropNul _).trans (List.dropWhile_suffix isBlank).length_le

theorem headText_short (pushed : Bool) {text : List UInt8} (short : text.length ≤ 1) :
    headText pushed text = none := by
  have less := (length_skipSpace text).trans short
  have word := (List.takeWhile_prefix (fun b => !isSpace b) (l := skipSpace text)).length_le
  have size : tokenSize - 1 = 9 := rfl
  unfold headText
  dsimp only
  rw [if_neg (by omega)]
  exact afterLine_short less

theorem dropWhile_drop {p : UInt8 → Bool} {text : List UInt8} {n : Nat}
    (inside : n ≤ (text.takeWhile p).length) : (text.drop n).dropWhile p = text.dropWhile p := by
  have split := List.takeWhile_append_dropWhile (p := p) (l := text)
  have goes : ∀ b ∈ (text.takeWhile p).drop n, p b = true := fun b member =>
    List.all_eq_true.mp List.all_takeWhile b (List.mem_of_mem_drop member)
  conv_lhs => rw [← split]
  rw [List.drop_append_of_le_length inside, List.dropWhile_append_of_pos goes]
  cases rest : text.dropWhile p with
  | nil => rfl
  | cons c tail =>
      have first := List.head?_dropWhile_not p text
      rw [rest] at first
      exact List.dropWhile_cons_of_neg (by simpa using first)

/-- The loops over a target have stored what fits of it and left what follows it. -/
def TargetRead (cfg : Config) (q : Request) (target : List UInt8) (u : Parsed) (g : Got) : Prop :=
  (∃ params start, { u.request with url := u.request.url.set u.request.urlLen 0 } =
    { q with
      url := q.url.put (urlCells (filled isBlank (cfg.urlBufferSize - 1) target) ++ [0])
      urlParams := params, urlParamsStart := start
      urlLen := (urlCells (filled isBlank (cfg.urlBufferSize - 1) target)).length }) ∧
  ∃ left, (pushC g.c g.reader).Sent left ∧
    ∀ pushed, headText pushed left = headText pushed (target.dropWhile fun b => !isBlank b)

section Target

variable {cfg : Config} {q : Request} {r : Reader} {target : List UInt8} {u : Parsed} {g : Got}

theorem targetRead_full (sent : r.Sent target)
    (last : isBlank (q.url (cfg.urlBufferSize - 1)) = false)
    (long : cfg.urlBufferSize - 1 ≤ (target.takeWhile fun b => !isBlank b).length)
    (loop : (doWhile (parseURLStep cfg) ⟨1, r, q.withTarget []⟩).Returns u)
    (drop : (whileDo (fun g => g.ret ≠ 0 && !isBlank g.c) (fun g => readC g.c g.reader)
      ⟨u.ret, u.request.url u.request.urlLen, u.reader⟩).Returns g) :
    TargetRead cfg q target u g := by
  obtain ⟨split, goes, -⟩ := split_word isBlank target
  have room := cfg.url_ge
  unfold TargetRead
  have kept : filled isBlank (cfg.urlBufferSize - 1) target =
      target.take (cfg.urlBufferSize - 1) := by
    rw [filled, if_neg (by omega), ← List.take_append_of_le_length long, split]
  have size : (target.take (cfg.urlBufferSize - 1)).length = cfg.urlBufferSize - 1 := by
    have := congrArg List.length split
    rw [List.length_append] at this
    rw [List.length_take]
    omega
  have nonblank : ∀ b ∈ target.take (cfg.urlBufferSize - 1), isBlank b = false := by
    intro b member
    rw [← split, List.take_append_of_le_length long] at member
    exact goes b (List.mem_of_mem_take member)
  have pending : r.pending = sends (target.take (cfg.urlBufferSize - 1)) ++
      sends (target.drop (cfg.urlBufferSize - 1)) := by
    rw [sent.pending, ← sends_append, List.take_append_drop]
  obtain ⟨r₁, run, after⟩ := urlLoop_full (q := q) nonblank (List.ne_nil_of_length_pos (by omega)) 1 r
    [] pending (by rw [List.length_nil, Nat.zero_add, size])
  have atEnd : r₁.atEnd = .zero := (urlLoop_follows run).atEnd.trans sent.atEnd
  obtain rfl := loop.unique run
  rw [List.nil_append] at drop ⊢
  rw [kept]
  generalize target.take (cfg.urlBufferSize - 1) = word at size drop
  have cell : (q.withTarget word).url (q.withTarget word).urlLen = q.url (cfg.urlBufferSize - 1) := by
    simp only [Request.withTarget, size]
    exact Mem.put_of_le _ (by rw [length_urlCells, size])
  refine ⟨⟨(q.withTarget word).urlParams, (q.withTarget word).urlParamsStart, ?_⟩, _,
    dropLoop_sent ⟨after.pending, atEnd⟩ (show (1 : Int8) ≠ 0 by decide) (cell ▸ last) drop,
    fun pushed => ?_⟩
  · rw [length_urlCells]
    exact congrArg (fun url => { q.withTarget word with url := url }) (withTarget_cell q word 0)
  · rw [dropWhile_drop long]

theorem targetRead_ended (sent : r.Sent target)
    (short : (target.takeWhile fun b => !isBlank b).length < cfg.urlBufferSize - 1)
    (rest : (target.dropWhile fun b => !isBlank b) = [])
    (loop : (doWhile (parseURLStep cfg) ⟨1, r, q.withTarget []⟩).Returns u)
    (drop : (whileDo (fun g => g.ret ≠ 0 && !isBlank g.c) (fun g => readC g.c g.reader)
      ⟨u.ret, u.request.url u.request.urlLen, u.reader⟩).Returns g) :
    TargetRead cfg q target u g := by
  obtain ⟨split, goes, -⟩ := split_word isBlank target
  rw [rest, List.append_nil] at split
  have kept : filled isBlank (cfg.urlBufferSize - 1) target = target ++ [0] := by
    rw [filled, if_pos ⟨short, rest⟩, split]
  rw [split] at goes short
  obtain ⟨stop, request, after⟩ := urlLoop_ended (q := q) goes sent
    (by rwa [List.length_nil, Nat.zero_add]) loop
  rw [List.nil_append] at request
  rw [whileDo_stop (by simp [stop])] at drop
  unfold TargetRead
  rw [drop, kept, rest]
  refine ⟨⟨(q.withTarget (target ++ [0])).urlParams, (q.withTarget (target ++ [0])).urlParamsStart, ?_⟩,
    dropNul [u.request.url u.request.urlLen],
    pushC_sent after ((urlLoop_follows loop).atEnd.trans sent.atEnd) _, fun pushed => ?_⟩
  · rw [request, length_urlCells]
    exact congrArg (fun url => { q.withTarget (target ++ [0]) with url := url })
      (withTarget_cell q (target ++ [0]) 0)
  · rw [headText_short pushed (length_dropNul _), headText_short pushed (by simp)]

theorem targetRead_word {c : UInt8} {tail : List UInt8} (sent : r.Sent target)
    (short : (target.takeWhile fun b => !isBlank b).length < cfg.urlBufferSize - 1)
    (rest : (target.dropWhile fun b => !isBlank b) = c :: tail)
    (loop : (doWhile (parseURLStep cfg) ⟨1, r, q.withTarget []⟩).Returns u)
    (drop : (whileDo (fun g => g.ret ≠ 0 && !isBlank g.c) (fun g => readC g.c g.reader)
      ⟨u.ret, u.request.url u.request.urlLen, u.reader⟩).Returns g) :
    TargetRead cfg q target u g := by
  obtain ⟨split, goes, stops⟩ := split_word isBlank target
  have blank : isBlank c = true := stops c (by simp [rest])
  have nonzero : c ≠ 0 := by
    intro zero
    rw [zero] at blank
    cases blank
  have kept : filled isBlank (cfg.urlBufferSize - 1) target = target.takeWhile fun b => !isBlank b := by
    rw [filled, if_neg (by simp [rest]), List.take_of_length_le short.le]
  have pending : r.pending =
      sends (target.takeWhile fun b => !isBlank b) ++ .byte c :: sends tail := by
    rw [sent.pending, ← sends_cons, ← sends_append, ← rest, split]
  obtain ⟨r₁, run, after⟩ := urlLoop_text (q := q) goes blank 1 r [] pending
    (by rwa [List.length_nil, Nat.zero_add])
  rw [List.nil_append] at run
  obtain rfl := loop.unique run
  unfold TargetRead
  rw [kept, rest]
  generalize target.takeWhile (fun b => !isBlank b) = word at run drop
  have cell : (q.url.put (urlCells word ++ [c])) word.length = c := by
    rw [Mem.put_of_lt _ (by simp)]
    simp
  have stop : (whileDo (fun g => g.ret ≠ 0 && !isBlank g.c) (fun g => readC g.c g.reader)
      ⟨1, (q.url.put (urlCells word ++ [c])) word.length, r₁⟩).Returns ⟨1, c, r₁⟩ := by
    rw [whileDo_stop (by rw [cell, blank]; simp), cell]
  rw [drop.unique stop]
  have back := pushC_sent after ((urlLoop_follows run).atEnd.trans sent.atEnd) c
  rw [dropNul, if_neg nonzero] at back
  refine ⟨⟨(q.withTarget word).urlParams, (q.withTarget word).urlParamsStart, ?_⟩, _, back,
    fun pushed => rfl⟩
  have ended := Mem.put_append_set q.url (urlCells word) c 0
  rw [length_urlCells] at ended ⊢
  exact congrArg (fun url => { q.withTarget word with url := url }) ended

end Target

theorem parseURL_sent {cfg : Config} {r : Reader} {q : Request} {text : List UInt8} (sent : r.Sent text)
    (last : isBlank (q.url (cfg.urlBufferSize - 1)) = false) {p : Parsed}
    (h : (parseURL cfg r q).Returns p) :
    (text.dropWhile isBlank = [] → p.request = q) ∧
    (text.dropWhile isBlank ≠ [] → ∃ params start, p.request =
      { q with
        url := q.url.put (targetCells cfg text ++ [0]), urlParams := params, urlParamsStart := start
        urlLen := (targetCells cfg text).length }) ∧
    ∃ left, p.reader.Sent left ∧ ∀ pushed, headText pushed left = headText pushed (targetRest text) := by
  obtain ⟨t, space, h⟩ := returns_bind.mp h
  obtain ⟨ret, left⟩ := parseSpace_sent sent space
  by_cases none : text.dropWhile isBlank = []
  · rw [if_pos none] at ret
    rw [ret, if_neg (by decide)] at h
    have empty : skipSpace text = [] := by rw [skipSpace, none]; rfl
    rw [returns_pure.mp h]
    refine ⟨fun _ => rfl, fun some => absurd none some, _, left, fun pushed => ?_⟩
    rw [targetRest, empty]
    rfl
  · rw [if_neg none] at ret
    rw [ret, if_pos (by decide)] at h
    obtain ⟨u, loop, h⟩ := returns_bind.mp h
    obtain ⟨g, drop, h⟩ := returns_bind.mp h
    rw [returns_pure.mp h]
    have read : TargetRead cfg q (skipSpace text) u g := by
      rcases Nat.lt_or_ge ((skipSpace text).takeWhile fun b => !isBlank b).length
          (cfg.urlBufferSize - 1) with short | long
      · cases rest : (skipSpace text).dropWhile fun b => !isBlank b with
        | nil => exact targetRead_ended left short rest loop drop
        | cons c tail => exact targetRead_word left short rest loop drop
      · exact targetRead_full left last long loop drop
    exact ⟨fun empty => absurd empty none, fun _ => read.1, read.2⟩

/-! ## The first line -/

theorem afterLine_wordless {stop : UInt8 → Bool} (newline : stop 10 = true) (text : List UInt8) :
    afterLine (text.dropWhile fun b => !stop b) = afterLine text := by
  obtain ⟨split, goes, -⟩ := split_word stop text
  conv_rhs => rw [← split]
  refine (afterLine_append fun b member same => ?_).symm
  have go := goes b member
  rw [same, newline] at go
  cases go

theorem afterLine_drop {stop : UInt8 → Bool} (newline : stop 10 = true) {text : List UInt8} {n : Nat}
    (inside : n ≤ (text.takeWhile fun b => !stop b).length) :
    afterLine (text.drop n) = afterLine text := by
  rw [← afterLine_wordless newline (text.drop n), dropWhile_drop inside, afterLine_wordless newline]

/-- Another byte than a newline in front of a word is read over with it. -/
theorem afterLine_lost {stop : UInt8 → Bool} (newline : stop 10 = true) {text : List UInt8} {n : Nat}
    (inside : n ≤ (text.takeWhile fun b => !stop b).length) {b : UInt8} (other : b ≠ 10) :
    afterLine (dropNul (b :: text.drop n)) = afterLine text := by
  rw [← afterLine_drop newline inside, dropNul]
  split
  · rfl
  · rw [afterLine, if_neg other]

theorem parseVersion_sent {r : Reader} {q : Request} {text : List UInt8} (sent : r.Sent text)
    {p : Parsed} (h : (parseVersion r q).Returns p) : ∃ v,
      EndsLine (headText (decide (r.frame (tokenSize - 1) = 10)) text) { q with version := v } p := by
  obtain ⟨t, space, h⟩ := returns_bind.mp h
  have entered : r.enter.Sent text := ⟨sent.pending, sent.atEnd⟩
  obtain ⟨ret, left⟩ := parseSpace_sent entered space
  by_cases none : text.dropWhile isBlank = []
  · rw [if_pos none] at ret
    rw [ret, if_neg (by decide)] at h
    have empty : skipSpace text = [] := by rw [skipSpace, none]; rfl
    rw [empty] at left
    refine ⟨q.version, ?_⟩
    rw [headText, empty, if_neg (by simp [tokenSize])]
    exact parseEOL_sent left h
  · rw [if_neg none] at ret
    rw [ret, if_pos (by decide)] at h
    unfold headText
    generalize skipSpace text = version at left
    obtain ⟨f, token, h⟩ := returns_bind.mp h
    have atEnd : f.reader.atEnd = .zero := (fill_follows token).atEnd.trans left.atEnd
    refine ⟨findVersion (f.buffer.set f.ptr 0) f.ptr, ?_⟩
    have newline : isSpace 10 = true := by decide
    cases fill_sent r.frame left (by decide) (by decide) (by decide) (by decide) token with
    | full long ret cells ptr rest =>
        have cell : f.buffer f.ptr = r.frame (tokenSize - 1) := by
          rw [cells, ptr]
          exact Mem.put_of_le _ (List.length_take_le _ _)
        have ended := parseEOL_sent (pushC_sent rest atEnd (f.buffer f.ptr)) h
        rw [cell] at ended
        by_cases pushed : r.frame (tokenSize - 1) = 10
        · rw [pushed, dropNul, if_neg (by decide)] at ended
          rw [pushed]
          dsimp only
          rw [if_pos ⟨decide_eq_true rfl, long⟩]
          exact ended
        · rw [afterLine_lost newline long pushed] at ended
          dsimp only
          rw [if_neg (by simp [pushed])]
          exact ended
    | @found c tail short stops ret cells ptr rest =>
        have cell : f.buffer f.ptr = c := by
          rw [cells, ptr, Mem.put_of_lt _ (by simp)]
          simp
        have space : isSpace c = true :=
          (split_word isSpace version).2.2 c (by rw [stops]; rfl)
        have nonzero : c ≠ 0 := by
          intro zero
          rw [zero] at space
          cases space
        have ended := parseEOL_sent (pushC_sent rest atEnd (f.buffer f.ptr)) h
        rw [cell, dropNul, if_neg nonzero, ← stops, afterLine_wordless newline] at ended
        dsimp only
        rw [if_neg fun both => absurd both.2 (by omega)]
        exact ended
    | ended short stops ret cells ptr rest =>
        have ended := parseEOL_sent (@pushC_sent f.reader [] rest atEnd (f.buffer f.ptr)) h
        rw [afterLine_short (length_dropNul _)] at ended
        have word := (List.takeWhile_prefix (fun b => !isSpace b) (l := version)).length_le
        dsimp only
        rw [if_neg fun both => absurd both.2 (by omega), ← afterLine_wordless newline, stops]
        exact ended

/-- A request behind a first line with this method, and with this text after the method. -/
structure Request.Lined (cfg : Config) (m : HttpMethod) (rest : List UInt8) (q q' : Request) : Prop where
  method : q'.method = m
  returnCode : q'.returnCode = q.returnCode
  headersDone : q'.headersDone = q.headersDone
  authenticated : q'.authenticated = q.authenticated
  cut : rest.dropWhile isBlank = [] → q'.url = q.url ∧ q'.urlLen = q.urlLen
  target : rest.dropWhile isBlank ≠ [] → q'.url = q.url.put (targetCells cfg rest ++ [0]) ∧
    q'.urlLen = (targetCells cfg rest).length

theorem parseRequestLine_sent {cfg : Config} {r : Reader} {q : Request} {text : List UInt8}
    (sent : r.Sent text) (unknown : q.returnCode = statusUnknown)
    (last : isBlank (q.url (cfg.urlBufferSize - 1)) = false) {m : HttpMethod} {rest : List UInt8}
    (token : requestMethod text = some (m, rest)) {p : Parsed}
    (h : (parseRequestLine cfg r q).Returns p) : ∃ q' k,
      EndsLine (headText (decide (r.stack k (tokenSize - 1) = 10)) (targetRest rest)) q' p ∧
      q.Lined cfg m rest q' := by
  obtain ⟨k, method, h⟩ := returns_bind.mp h
  obtain ⟨request, left, after, same⟩ := (parseMethod_sent sent method).2 m rest token
  rw [request, if_pos unknown] at h
  obtain ⟨u, url, version⟩ := returns_bind.mp h
  obtain ⟨none, some, left', after', head⟩ :=
    @parseURL_sent cfg k.reader { q with method := m } left after last u url
  have alike : skipSpace left = skipSpace rest := by rw [skipSpace, skipSpace, same]
  unfold targetRest at head
  unfold targetCells at some
  rw [alike] at head some
  rw [same] at none some
  obtain ⟨v, ends⟩ := parseVersion_sent after' version
  obtain ⟨i, shifted⟩ := ((parseURL_follows url).trans (parseMethod_follows method)).stack
  rw [head, show u.reader.frame = r.stack (0 + i) from shifted 0] at ends
  refine ⟨{ u.request with version := v }, 0 + i, ends, ?_⟩
  by_cases empty : rest.dropWhile isBlank = []
  · rw [none empty]
    exact ⟨rfl, rfl, rfl, rfl, fun _ => ⟨rfl, rfl⟩, fun target => absurd empty target⟩
  · obtain ⟨params, start, found⟩ := some empty
    rw [found]
    exact ⟨rfl, rfl, rfl, rfl, fun none => absurd none empty, fun _ => ⟨rfl, rfl⟩⟩

/-! ## Header lines -/

structure StoredLine where
  name : List UInt8
  value : List UInt8

def isEol (c : UInt8) : Bool := c == 13 || c == 10

def valueRest (cfg : Config) (text : List UInt8) : List UInt8 :=
  skipSpace (leftOver (fun c => c == 58) (cfg.headerNameSize - 1) text)

def storedLine (cfg : Config) (text : List UInt8) : StoredLine where
  name := filled (fun c => c == 58) (cfg.headerNameSize - 1) text
  value := filled isEol (cfg.headerValueSize - 1) (valueRest cfg text)

theorem parseHeader_sent {cfg : Config} {l l' : HeaderLoop} {text : List UInt8}
    (sent : l.reader.Sent text) (h : (parseHeader cfg l).Returns l') :
    l'.name = l.name.put ((storedLine cfg text).name ++ [0]) ∧
      l'.value = l.value.put ((storedLine cfg text).value ++ [0]) ∧
      EndsLine (afterLine (valueRest cfg text)) l.request ⟨l'.ret, l'.reader, l'.request⟩ := by
  obtain ⟨f, name, h⟩ := returns_bind.mp h
  obtain ⟨t, space, h⟩ := returns_bind.mp h
  obtain ⟨g, value, h⟩ := returns_bind.mp h
  obtain ⟨p, line, h⟩ := returns_bind.mp h
  have nameRoom := cfg.name_ge
  have valueRoom := cfg.value_ge
  have first := fill_sent l.name sent (by omega) (by decide) (by decide) (by decide) name
  have between : f.reader.Sent (leftOver (fun c => c == 58) (cfg.headerNameSize - 1) text) :=
    ⟨first.leftOver, (fill_follows name).atEnd.trans sent.atEnd⟩
  have left := (parseSpace_sent between space).2
  have second : Filled isEol (cfg.headerValueSize - 1) (valueRest cfg text) l.value g :=
    fill_sent l.value left (by omega) (by decide) (by decide) (by decide) value
  have atEnd : g.reader.atEnd = .zero := (fill_follows value).atEnd.trans left.atEnd
  rw [returns_pure.mp h]
  refine ⟨first.cells, second.cells, ?_⟩
  have newline : isEol 10 = true := by decide
  change EndsLine _ _ p
  cases second with
  | full long ret cells ptr rest =>
      rw [if_neg (by omega)] at line
      rw [← afterLine_drop newline long]
      exact parseEOL_sent ⟨rest.pending, atEnd⟩ line
  | @found c tail short stops ret cells ptr rest =>
      have cell : g.buffer g.ptr = c := by
        rw [cells, ptr, Mem.put_of_lt _ (by simp)]
        simp
      have eol : isEol c = true := (split_word isEol (valueRest cfg text)).2.2 c (by rw [stops]; rfl)
      have nonzero : c ≠ 0 := by
        intro zero
        rw [zero] at eol
        cases eol
      rw [if_pos (by omega)] at line
      have ended := parseEOL_sent (pushC_sent rest atEnd (g.buffer g.ptr)) line
      rw [cell, dropNul, if_neg nonzero, ← stops, afterLine_wordless newline] at ended
      exact ended
  | ended short stops ret cells ptr rest =>
      rw [← afterLine_wordless newline, stops]
      split at line
      · have ended := parseEOL_sent (@pushC_sent g.reader [] rest atEnd (g.buffer g.ptr)) line
        rw [afterLine_short (length_dropNul _)] at ended
        exact ended
      · exact parseEOL_sent ⟨rest.pending, atEnd⟩ line

end AttoHTTP
