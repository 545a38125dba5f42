import AttoHTTP.Proof.Rendering
import AttoHTTP.Proof.RequestBounds

/-!
# When the connection fails

After the last byte every read returns -1 and stores nothing. The loops over blanks and the loops
that fill a buffer end then. The one over a line end goes on with the byte it has read last, and the
one that drops the rest of a target goes on for ever.
-/

namespace AttoHTTP
open Library Comp

/-! ## What is still to come -/

def GetByte.delivered : GetByte → Option UInt8
  | .byte b => some b
  | _ => none

def Reader.text (r : Reader) : List UInt8 := r.pending.filterMap GetByte.delivered

/-- Only bytes are still to come, and then the connection fails. -/
structure Reader.Fails (r : Reader) : Prop where
  atEnd : r.atEnd = .error
  input : ∃ text, r.input = sends text

theorem delivered_sends (text : List UInt8) : (sends text).filterMap GetByte.delivered = text := by
  induction text with
  | nil => rfl
  | cons b text ih => rw [sends_cons, List.filterMap_cons, GetByte.delivered, ih]

namespace Reader.Fails
variable {r : Reader}

theorem pending (fails : r.Fails) : r.pending = sends r.text := by
  obtain ⟨text, input⟩ := fails.input
  have all : ∃ whole, r.pending = sends whole := by
    unfold Reader.pending
    rw [input]
    cases r.extraC with
    | none => exact ⟨text, rfl⟩
    | some e =>
        by_cases zero : e = 0
        · exact ⟨text, by simp [zero]⟩
        · exact ⟨e :: text, by simp [zero]⟩
  obtain ⟨whole, equal⟩ := all
  rw [Reader.text, equal, delivered_sends]

theorem follows (fails : r.Fails) {r' : Reader} (h : r'.Follows r) : r'.Fails := by
  obtain ⟨text, input⟩ := fails.input
  obtain ⟨before, split⟩ := h.input
  rw [input] at split
  obtain ⟨l, l', -, -, rest⟩ := List.append_eq_map_iff.mp split
  exact ⟨h.atEnd.trans fails.atEnd, l', rest.symm⟩

theorem readC (fails : r.Fails) (c : UInt8) : (AttoHTTP.readC c r).reader.Fails :=
  fails.follows (readC_follows c r)

theorem next_nil (fails : r.Fails) (empty : r.text = []) : r.next = .error := by
  rw [next_of_empty (by rw [fails.pending, empty]; rfl), fails.atEnd]

theorem next_cons (fails : r.Fails) {b : UInt8} {rest : List UInt8} (more : r.text = b :: rest) :
    r.next = .byte b :=
  next_of_pending (by rw [fails.pending, more]; rfl)

theorem ret_ne_zero (fails : r.Fails) : r.next.ret ≠ 0 := by
  cases text : r.text with
  | nil =>
      rw [fails.next_nil text]
      decide
  | cons b rest =>
      rw [fails.next_cons text, byte_ret]
      decide

theorem readC_text (fails : r.Fails) (c : UInt8) :
    (AttoHTTP.readC c r).reader.text = r.text.tail := by
  rw [Reader.text, readC_pending, fails.pending]
  cases r.text with
  | nil => rfl
  | cons b rest => exact delivered_sends rest

theorem readC_sends (fails : r.Fails) (c : UInt8) :
    (AttoHTTP.readC c r).reader.input = sends (AttoHTTP.readC c r).reader.text := by
  rw [readC_input, ← readC_pending c, (fails.readC c).pending]

end Reader.Fails

theorem pushC_text {r : Reader} (input : r.input = sends r.text) (c : UInt8) :
    (pushC c r).text = if c = 0 then r.text else c :: r.text := by
  rw [Reader.text, pushC_pending]
  split
  · rw [input, delivered_sends]
  · rw [List.filterMap_cons, GetByte.delivered, input, delivered_sends]

/-! ## The end of a line -/

/-- Behind the first newline, with the byte that has been read last. -/
def endsBehind (last : UInt8) : List UInt8 → Prop
  | [] => last = 10
  | b :: text => b = 10 ∨ isSpace b = false ∨ endsBehind b text

/-- The text that is read as a line end has one, with the byte in the variable for the reads. -/
def endsLine (last : UInt8) : List UInt8 → Prop
  | [] => last = 10
  | b :: text => if b = 10 then endsBehind 10 text else endsLine b text

theorem parseEOLStep_fails {t : EolLoop} (fails : t.reader.Fails) :
    (parseEOLStep t).1.c = t.reader.next.store t.c ∧
      (parseEOLStep t).1.reader = (readC t.c t.reader).reader ∧
      (parseEOLStep t).1.eolCount =
        (if t.reader.next.store t.c = 10 then t.eolCount + 1 else t.eolCount) ∧
      ((parseEOLStep t).2 = true ↔
        (isSpace (parseEOLStep t).1.c = true ∨ (parseEOLStep t).1.eolCount = 0) ∧
          (parseEOLStep t).1.eolCount < 2) := by
  have positive : 0 < t.reader.next.ret.toUInt8 := by
    cases text : t.reader.text with
    | nil =>
        rw [fails.next_nil text]
        decide
    | cons b rest =>
        rw [fails.next_cons text, byte_ret]
        decide
  refine ⟨by simp [parseEOLStep], rfl, by simp [parseEOLStep], ?_⟩
  simp [parseEOLStep, positive]

theorem eolLoop_stuck {t : EolLoop} (fails : t.reader.Fails) (empty : t.reader.text = [])
    (other : t.c ≠ 10) (goes : t.eolCount = 0 ∨ t.eolCount = 1 ∧ isSpace t.c = true) :
    (doWhile parseEOLStep t).Diverges := by
  refine doWhile_diverges (fun u => u.reader.Fails ∧ u.reader.text = [] ∧ u.c ≠ 10 ∧
    (u.eolCount = 0 ∨ u.eolCount = 1 ∧ isSpace u.c = true)) ?_ t ⟨fails, empty, other, goes⟩
  rintro u ⟨fails, empty, other, goes⟩
  obtain ⟨c, reader, count, again⟩ := parseEOLStep_fails fails
  rw [fails.next_nil empty, GetByte.store] at c count
  rw [if_neg other] at count
  refine ⟨again.mpr ?_, reader ▸ fails.readC _, ?_, c ▸ other, ?_⟩
  · rw [c, count]
    rcases goes with none | ⟨one, space⟩
    · exact ⟨.inr none, by omega⟩
    · exact ⟨.inl space, by omega⟩
  · rw [reader, fails.readC_text, empty]
    rfl
  · rw [c, count]
    exact goes

theorem eolLoop_behind {t : EolLoop} (fails : t.reader.Fails) (one : t.eolCount = 1)
    (space : isSpace t.c = true) :
    (∃ u, (doWhile parseEOLStep t).Returns u) ↔ endsBehind t.c t.reader.text := by
  induction text : t.reader.text generalizing t with
  | nil =>
      obtain ⟨c, -, count, again⟩ := parseEOLStep_fails fails
      rw [fails.next_nil text, GetByte.store] at c count
      by_cases newline : t.c = 10
      · rw [if_pos newline] at count
        have stop : (parseEOLStep t).2 = false := by
          rw [← Bool.not_eq_true, again]
          omega
        exact iff_of_true ⟨_, (doWhile_exit stop).mpr rfl⟩ newline
      · refine iff_of_false ?_ newline
        rintro ⟨u, run⟩
        exact (eolLoop_stuck fails text newline (.inr ⟨one, space⟩)).not_returns run
  | cons b rest ih =>
      obtain ⟨c, reader, count, again⟩ := parseEOLStep_fails fails
      rw [fails.next_cons text, byte_store] at c count
      by_cases newline : b = 10
      · rw [if_pos newline] at count
        have stop : (parseEOLStep t).2 = false := by
          rw [← Bool.not_eq_true, again]
          omega
        exact iff_of_true ⟨_, (doWhile_exit stop).mpr rfl⟩ (.inl newline)
      · rw [if_neg newline] at count
        cases blank : isSpace b with
        | false =>
            have stop : (parseEOLStep t).2 = false := by
              rw [← Bool.not_eq_true, again, c, blank, count, one]
              simp
            exact iff_of_true ⟨_, (doWhile_exit stop).mpr rfl⟩ (.inr (.inl blank))
        | true =>
            have goes : (parseEOLStep t).2 = true := again.mpr ⟨.inl (c ▸ blank), by omega⟩
            have later := ih (t := (parseEOLStep t).1) (reader ▸ fails.readC _) (count.trans one)
              (c ▸ blank) (by rw [reader, fails.readC_text, text]; rfl)
            simp only [doWhile_next goes, later, endsBehind, newline, blank, false_or, c,
              Bool.true_eq_false]

theorem eolLoop_line {t : EolLoop} (fails : t.reader.Fails) (none : t.eolCount = 0) :
    (∃ u, (doWhile parseEOLStep t).Returns u) ↔ endsLine t.c t.reader.text := by
  induction text : t.reader.text generalizing t with
  | nil =>
      obtain ⟨c, reader, count, again⟩ := parseEOLStep_fails fails
      rw [fails.next_nil text, GetByte.store] at c count
      by_cases newline : t.c = 10
      · rw [if_pos newline, none] at count
        have space : isSpace (parseEOLStep t).1.c = true := by
          rw [c, newline]
          decide
        have goes : (parseEOLStep t).2 = true := again.mpr ⟨.inl space, by omega⟩
        have later := @eolLoop_behind (parseEOLStep t).1 (reader ▸ fails.readC _) count space
        rw [reader, fails.readC_text, text] at later
        simp only [doWhile_next goes, later]
        exact iff_of_true (c.trans newline) newline
      · refine iff_of_false ?_ newline
        rintro ⟨u, run⟩
        exact (eolLoop_stuck fails text newline (.inl none)).not_returns run
  | cons b rest ih =>
      obtain ⟨c, reader, count, again⟩ := parseEOLStep_fails fails
      rw [fails.next_cons text, byte_store] at c count
      have left : (parseEOLStep t).1.reader.text = rest := by
        rw [reader, fails.readC_text, text]
        rfl
      by_cases newline : b = 10
      · rw [if_pos newline, none] at count
        have space : isSpace (parseEOLStep t).1.c = true := by
          rw [c, newline]
          decide
        have goes : (parseEOLStep t).2 = true := again.mpr ⟨.inl space, by omega⟩
        have later := @eolLoop_behind (parseEOLStep t).1 (reader ▸ fails.readC _) count space
        simp only [doWhile_next goes, later, left, c, newline, endsLine, if_true]
      · rw [if_neg newline, none] at count
        have goes : (parseEOLStep t).2 = true := again.mpr ⟨.inr count, by omega⟩
        have later := ih (t := (parseEOLStep t).1) (reader ▸ fails.readC _) count left
        simp only [doWhile_next goes, later, c, endsLine, newline, if_false]

theorem parseEOL_returns_iff {r : Reader} (fails : r.Fails) (q : Request) :
    (∃ p, (parseEOL r q).Returns p) ↔ endsLine (r.frame 0) r.text := by
  have loop := eolLoop_line (t := ⟨1, r.frame 0, 0, r.enter⟩) (fails.follows (enter_follows r)) rfl
  have text : r.enter.text = r.text := rfl
  rw [← text, ← loop]
  constructor
  · rintro ⟨p, run⟩
    obtain ⟨t, rounds, -⟩ := returns_bind.mp run
    exact ⟨t, rounds⟩
  · rintro ⟨t, rounds⟩
    exact ⟨_, rounds.bind (returns_pure.mpr rfl)⟩

/-! ## The target -/

/-- Behind the blanks there is nothing at all, or there is a blank that ends what comes. -/
def endsTarget (text : List UInt8) : Prop :=
  text.dropWhile isBlank ≠ [] → ∃ b ∈ text.dropWhile isBlank, isBlank b = true

theorem spaceLoop_fails {g t : Got} (h : (doWhile parseSpaceStep g).Returns t)
    (fails : g.reader.Fails) : t.reader.input = sends t.reader.text ∧
      if 0 < t.ret then g.reader.text.dropWhile isBlank = t.c :: t.reader.text ∧ isBlank t.c = false
      else g.reader.text.dropWhile isBlank = [] := by
  refine doWhile_induction (motive := fun g t => g.reader.Fails →
    t.reader.input = sends t.reader.text ∧
      if 0 < t.ret then g.reader.text.dropWhile isBlank = t.c :: t.reader.text ∧ isBlank t.c = false
      else g.reader.text.dropWhile isBlank = []) ?_ ?_ h fails
  · intro g stop fails
    refine ⟨fails.readC_sends g.c, ?_⟩
    have left := fails.readC_text g.c
    simp only [parseSpaceStep, readC_ret, readC_c, Bool.and_eq_false_iff,
      decide_eq_false_iff_not] at stop ⊢
    cases text : g.reader.text with
    | nil =>
        rw [fails.next_nil text, if_neg (by decide)]
        rfl
    | cons b rest =>
        rw [fails.next_cons text, byte_ret, byte_store] at stop
        have plain : isBlank b = false := stop.resolve_right fun no => no (by decide)
        rw [fails.next_cons text, byte_ret, byte_store, if_pos (by decide), left, text,
          List.dropWhile_cons_of_neg (by simp [plain])]
        exact ⟨rfl, plain⟩
  · intro g t again ih fails
    have later := ih (fails.readC g.c)
    have left := fails.readC_text g.c
    simp only [parseSpaceStep, readC_ret, readC_c, Bool.and_eq_true, decide_eq_true_eq] at again
    cases text : g.reader.text with
    | nil =>
        rw [fails.next_nil text] at again
        exact absurd again.2 (by decide)
    | cons b rest =>
        rw [fails.next_cons text, byte_store] at again
        rw [List.dropWhile_cons_of_pos again.1]
        rw [text, List.tail_cons] at left
        simp only [parseSpaceStep, left] at later
        exact later

theorem parseSpace_fails {r : Reader} {t : Scanned} (h : (parseSpace r).Returns t)
    (fails : r.Fails) : if 0 < t.ret then r.text.dropWhile isBlank ≠ [] ∧
      ((∃ b ∈ t.reader.text, isBlank b = true) ↔ ∃ b ∈ r.text.dropWhile isBlank, isBlank b = true)
    else r.text.dropWhile isBlank = [] := by
  obtain ⟨g, loop, h⟩ := returns_bind.mp h
  rw [returns_pure] at h
  obtain ⟨input, read⟩ := spaceLoop_fails loop (fails.follows (enter_follows r))
  rw [show (⟨1, r.frame 0, r.enter⟩ : Got).reader.text = r.text from rfl] at read
  subst h
  dsimp only
  split at read
  · rename_i found
    obtain ⟨text, plain⟩ := read
    rw [if_pos found, text, pushC_text input]
    refine ⟨List.cons_ne_nil _ _, ?_⟩
    split
    · simp [plain]
    · rfl
  · rename_i nothing
    rw [if_neg nothing]
    exact read

theorem blanks_tail {r : Reader} (fails : r.Fails) {c : UInt8} (plain : isBlank (r.next.store c) = false) :
    (∃ b ∈ (readC c r).reader.text, isBlank b = true) ↔ ∃ b ∈ r.text, isBlank b = true := by
  rw [fails.readC_text]
  cases text : r.text with
  | nil => rfl
  | cons b rest =>
      rw [fails.next_cons text, byte_store] at plain
      simp [plain]

theorem blank_delivered {r : Reader} (fails : r.Fails) {c : UInt8} (plain : isBlank c = false)
    (blank : isBlank (r.next.store c) = true) : ∃ b ∈ r.text, isBlank b = true := by
  cases text : r.text with
  | nil =>
      rw [fails.next_nil text, GetByte.store, plain] at blank
      cases blank
  | cons b rest =>
      rw [fails.next_cons text, byte_store] at blank
      exact ⟨b, List.mem_cons_self .., blank⟩

theorem urlLoop_fails {cfg : Config} {p u : Parsed} (h : (doWhile (parseURLStep cfg) p).Returns u)
    (fails : p.reader.Fails) (unblank : Unblank cfg p.request.url)
    (inside : p.request.urlLen < cfg.urlBufferSize - 1) : u.reader.Fails ∧ u.ret ≠ 0 ∧
      ((isBlank (u.request.url u.request.urlLen) = true ∨ ∃ b ∈ u.reader.text, isBlank b = true) ↔
        ∃ b ∈ p.reader.text, isBlank b = true) := by
  refine doWhile_induction (motive := fun p u => p.reader.Fails → Unblank cfg p.request.url →
    p.request.urlLen < cfg.urlBufferSize - 1 → u.reader.Fails ∧ u.ret ≠ 0 ∧
      ((isBlank (u.request.url u.request.urlLen) = true ∨ ∃ b ∈ u.reader.text, isBlank b = true) ↔
        ∃ b ∈ p.reader.text, isBlank b = true)) ?_ ?_ h fails unblank inside
  · intro p stop fails unblank inside
    have goes : (readC (p.request.url p.request.urlLen) p.reader).ret ≠ 0 := by
      rw [readC_ret]
      exact fails.ret_ne_zero
    refine ⟨parseURLStep_reader cfg p ▸ fails.readC _, ?_, ?_⟩
    · unfold parseURLStep
      dsimp only
      split <;> exact goes
    · rw [parseURLStep_reader]
      cases blank : isBlank (p.reader.next.store (p.request.url p.request.urlLen)) with
      | true =>
          have delivered := blank_delivered fails (unblank _ (by omega)) blank
          simp only [parseURLStep, readC_c, blank, if_true, Mem.set_self, true_or, delivered]
      | false =>
          have len : (parseURLStep cfg p).1.request.urlLen = p.request.urlLen + 1 := by
            simp only [parseURLStep, readC_c, blank, Bool.false_eq_true, if_false]
            split <;> rfl
          have next := unblank (p.request.urlLen + 1) (by omega)
          rw [← blanks_tail fails blank, len, (parseURLStep_cell cfg p).1 _ (by omega), next]
          simp
  · intro p u again ih fails unblank inside
    have kept := parseURLStep_unblank unblank
    rw [if_pos again] at kept
    obtain ⟨left, goes, same⟩ := ih (parseURLStep_reader cfg p ▸ fails.readC _) kept
      ((parseURLStep_cell cfg p).2.2 again)
    refine ⟨left, goes, ?_⟩
    have plain : isBlank (p.reader.next.store (p.request.url p.request.urlLen)) = false := by
      rw [← Bool.not_eq_true]
      intro blank
      simp [parseURLStep, blank] at again
    rw [same, parseURLStep_reader, blanks_tail fails plain]

theorem dropLoop_returns_iff {g : Got} (fails : g.reader.Fails) (goes : g.ret ≠ 0) :
    (∃ t, (whileDo (fun g => g.ret ≠ 0 && !isBlank g.c) (fun g => readC g.c g.reader) g).Returns t) ↔
      isBlank g.c = true ∨ ∃ b ∈ g.reader.text, isBlank b = true := by
  constructor
  · rintro ⟨t, run⟩
    by_contra none
    rw [not_or, Bool.not_eq_true] at none
    have test : (decide (g.ret ≠ 0) && !isBlank g.c) = true := by simp [goes, none.1]
    rw [whileDo, if_pos test] at run
    refine (doWhile_diverges (fun g => g.reader.Fails ∧ isBlank g.c = false ∧
      ¬ ∃ b ∈ g.reader.text, isBlank b = true) ?_ g ⟨fails, none⟩).not_returns run
    rintro g ⟨fails, plain, none⟩
    have next : isBlank (g.reader.next.store g.c) = false := by
      rw [← Bool.not_eq_true]
      exact fun blank => none (blank_delivered fails plain blank)
    refine ⟨?_, fails.readC g.c, by rwa [readC_c], fun more => none ((blanks_tail fails next).mp more)⟩
    simp [next, fails.ret_ne_zero]
  · intro blank
    have round (g : Got)
        (inv : g.reader.Fails ∧ (isBlank g.c = true ∨ ∃ b ∈ g.reader.text, isBlank b = true))
        (test : (decide (g.ret ≠ 0) && !isBlank g.c) = true) :
        ((readC g.c g.reader).reader.Fails ∧ (isBlank (readC g.c g.reader).c = true ∨
          ∃ b ∈ (readC g.c g.reader).reader.text, isBlank b = true)) ∧
          (readC g.c g.reader).reader.text.length < g.reader.text.length := by
      obtain ⟨fails, blank⟩ := inv
      rw [Bool.and_eq_true, Bool.not_eq_true'] at test
      obtain ⟨b, member, blank⟩ := blank.resolve_left (by simp [test.2])
      have some := List.length_pos_of_mem member
      refine ⟨⟨fails.readC g.c, ?_⟩, by rw [fails.readC_text, List.length_tail]; omega⟩
      rw [readC_c]
      cases next : isBlank (g.reader.next.store g.c) with
      | true => exact .inl rfl
      | false => exact .inr ((blanks_tail fails next).mpr ⟨b, member, blank⟩)
    obtain ⟨t, run, -⟩ := whileDo_total (fun g : Got => g.reader.text.length) _ round g ⟨fails, blank⟩
    exact ⟨t, run⟩

theorem parseURL_returns_iff {cfg : Config} {r : Reader} {q : Request} (fails : r.Fails)
    (unblank : Unblank cfg q.url) : (∃ p, (parseURL cfg r q).Returns p) ↔ endsTarget r.text := by
  obtain ⟨t, space⟩ := parseSpace_total (r := r) (by rw [fails.atEnd]; decide)
  have read := parseSpace_fails space fails
  have target := parseURL_inside cfg r q t space
  by_cases found : 0 < t.ret
  · rw [if_pos found] at read target
    obtain ⟨-, ⟨u, loop, -⟩, -⟩ := target
    obtain ⟨left, goes, blanks⟩ := urlLoop_fails loop (fails.follows (parseSpace_follows space))
      unblank (show 0 < cfg.urlBufferSize - 1 by have := cfg.url_ge; omega)
    have drop := dropLoop_returns_iff
      (g := ⟨u.ret, u.request.url u.request.urlLen, u.reader⟩) left goes
    unfold endsTarget
    rw [← read.2, ← blanks, ← drop]
    constructor
    · rintro ⟨p, run⟩ _
      rw [parseURL, space.bind_iff, if_pos found, loop.bind_iff] at run
      obtain ⟨g, rest, -⟩ := returns_bind.mp run
      exact ⟨g, rest⟩
    · intro rest
      obtain ⟨g, rest⟩ := rest read.1
      simp only [parseURL, space.bind_iff, if_pos found, loop.bind_iff, rest.bind_iff]
      exact ⟨_, returns_pure.mpr rfl⟩
  · rw [if_neg found] at read target
    exact iff_of_true ⟨_, target⟩ fun some => absurd read some

/-! ## Requests -/

/-- What a parser can be left waiting for, by what it reads it from. -/
inductive Wait
  | target (r : Reader)
  | line (r : Reader)

def Wait.Ends : Wait → Prop
  | .target r => endsTarget r.text
  | .line r => endsLine (r.frame 0) r.text

inductive VersionLine (r : Reader) : Reader → Prop
  | token {t : Scanned} {f : Fill} (space : (parseSpace r.enter).Returns t) (found : 0 < t.ret)
      (token : (fill isSpace (fun ret => ret ≠ 0) (tokenSize - 1) r.frame t.reader).Returns f) :
      VersionLine r (pushC (f.buffer f.ptr) f.reader)
  | nothing {t : Scanned} (space : (parseSpace r.enter).Returns t) (none : ¬ 0 < t.ret) :
      VersionLine r t.reader

inductive HeaderLine (cfg : Config) (h : HeaderLoop) : Reader → Prop
  | value {f g : Fill} {t : Scanned}
      (name : (fill (fun c => c == 58) (fun ret => 0 < ret) (cfg.headerNameSize - 1) h.name
        h.reader).Returns f)
      (space : (parseSpace f.reader).Returns t)
      (value : (fill (fun c => c == 13 || c == 10) (fun ret => 0 < ret) (cfg.headerValueSize - 1)
        h.value t.reader).Returns g) :
      HeaderLine cfg h
        (if g.ptr < cfg.headerValueSize - 1 then pushC (g.buffer g.ptr) g.reader else g.reader)

def headerRound (cfg : Config) (check : CheckAuth) (h : HeaderLoop) : Comp (HeaderLoop × Bool) := do
  let t ← parseHeadersBody cfg check h
  pure (t, moreHeaders t)

def headerStart (p : Parsed) : HeaderLoop :=
  ⟨1, p.reader.frame, p.reader.enter.frame, p.reader.enter.enter, p.request⟩

/-- The target and the line end that the parsers come to in the first line. -/
inductive LineWaits (cfg : Config) (r : Reader) (q : Request) : Wait → Prop
  | target {p : Parsed} (method : (parseMethod r q).Returns p)
      (known : p.request.returnCode = statusUnknown) : LineWaits cfg r q (.target p.reader)
  | version {p u : Parsed} {r' : Reader} (method : (parseMethod r q).Returns p)
      (known : p.request.returnCode = statusUnknown)
      (url : (parseURL cfg p.reader p.request).Returns u) (eol : VersionLine u.reader r') :
      LineWaits cfg r q (.line r')

inductive Waits (cfg : Config) (check : CheckAuth) (r : Reader) (q : Request) : Wait → Prop
  | first {w : Wait} (waits : LineWaits cfg r q w) : Waits cfg check r q w
  | header {p : Parsed} {h : HeaderLoop} {r' : Reader} (line : (parseRequestLine cfg r q).Returns p)
      (known : p.request.returnCode = statusUnknown) (some : moreHeaders (headerStart p) = true)
      (reach : Comp.Reaches (headerRound cfg check) (headerStart p) h)
      (eol : HeaderLine cfg h r') : Waits cfg check r q (.line r')

theorem parseVersion_returns_iff {r : Reader} (fails : r.Fails) (q : Request) :
    (∃ p, (parseVersion r q).Returns p) ↔ ∀ r', VersionLine r r' → (Wait.line r').Ends := by
  have final : r.atEnd.ret ≤ 0 := by
    rw [fails.atEnd]
    decide
  obtain ⟨t, space⟩ := parseSpace_total (r := r.enter) final
  have left := fails.follows ((parseSpace_follows space).trans (enter_follows r))
  by_cases found : 0 < t.ret
  · obtain ⟨f, token⟩ := fill_total isSpace (fun ret => ret ≠ 0) (tokenSize - 1) r.frame t.reader
    have last := left.follows ((pushC_follows (f.buffer f.ptr) f.reader).trans (fill_follows token))
    simp only [parseVersion, space.bind_iff, if_pos found, token.bind_iff]
    rw [parseEOL_returns_iff last]
    constructor
    · intro ends r' line
      cases line with
      | token space' found' token' =>
          obtain rfl := space.unique space'
          obtain rfl := token.unique token'
          exact ends
      | nothing space' none =>
          obtain rfl := space.unique space'
          exact absurd found none
    · exact fun all => all _ (.token space found token)
  · simp only [parseVersion, space.bind_iff, if_neg found]
    rw [parseEOL_returns_iff left]
    constructor
    · intro ends r' line
      cases line with
      | token space' found' token' =>
          obtain rfl := space.unique space'
          exact absurd found' found
      | nothing space' none =>
          obtain rfl := space.unique space'
          exact ends
    · exact fun all => all _ (.nothing space found)

theorem parseHeader_returns_iff {cfg : Config} {h : HeaderLoop} (fails : h.reader.Fails) :
    (∃ h', (parseHeader cfg h).Returns h') ↔ ∀ r', HeaderLine cfg h r' → (Wait.line r').Ends := by
  obtain ⟨f, name⟩ := fill_total (fun c => c == 58) (fun ret => 0 < ret) (cfg.headerNameSize - 1)
    h.name h.reader
  have first := fails.follows (fill_follows name)
  obtain ⟨t, space⟩ := parseSpace_total (r := f.reader) (by rw [first.atEnd]; decide)
  have second := first.follows (parseSpace_follows space)
  obtain ⟨g, value⟩ := fill_total (fun c => c == 13 || c == 10) (fun ret => 0 < ret)
    (cfg.headerValueSize - 1) h.value t.reader
  have third := second.follows (fill_follows value)
  have pushed : (if g.ptr < cfg.headerValueSize - 1 then pushC (g.buffer g.ptr) g.reader
      else g.reader).Fails := by
    split
    · exact third.follows (pushC_follows _ _)
    · exact third
  have line := parseEOL_returns_iff pushed h.request
  constructor
  · rintro ⟨h', run⟩ r' ⟨name', space', value'⟩
    obtain rfl := name.unique name'
    obtain rfl := space.unique space'
    obtain rfl := value.unique value'
    rw [parseHeader, name.bind_iff, space.bind_iff, value.bind_iff] at run
    obtain ⟨p, eol, -⟩ := returns_bind.mp run
    exact line.mp ⟨p, eol⟩
  · intro all
    obtain ⟨p, eol⟩ := line.mpr (all _ ⟨name, space, value⟩)
    exact ⟨_, name.bind (space.bind (value.bind (eol.bind (returns_pure.mpr rfl))))⟩

theorem headerRound_fails {cfg : Config} {check : CheckAuth} {h : HeaderLoop} {p : HeaderLoop × Bool}
    (fails : h.reader.Fails) (round : (headerRound cfg check h).Returns p) : p.1.reader.Fails := by
  obtain ⟨t, body, round⟩ := returns_bind.mp round
  rw [returns_pure] at round
  rw [round]
  exact fails.follows (parseHeadersBody_follows body)

theorem parseHeaders_returns_iff {cfg : Config} {check : CheckAuth} {p : Parsed}
    (fails : p.reader.Fails) :
    (∃ u, (parseHeaders cfg check p.reader p.request).Returns u) ↔
      (moreHeaders (headerStart p) = true → ∀ h r',
        Comp.Reaches (headerRound cfg check) (headerStart p) h → HeaderLine cfg h r' →
          (Wait.line r').Ends) := by
  have start : (headerStart p).reader.Fails := fails.follows
    ((enter_follows _).trans (enter_follows _))
  have loop (k : HeaderLoop) (some : moreHeaders (headerStart p) = true) :
      (whileDoM moreHeaders (parseHeadersBody cfg check) (headerStart p)).Returns k ↔
        (doWhileM (headerRound cfg check) (headerStart p)).Returns k := by
    rw [whileDoM, if_pos some]
    rfl
  constructor
  · rintro ⟨u, run⟩ some h r' reach line
    obtain ⟨k, rounds, -⟩ := returns_bind.mp run
    have left := reach.invariant (fun h => h.reader.Fails)
      (fun h p fails round _ => headerRound_fails fails round) start
    obtain ⟨p', round, -⟩ := doWhileM_returns.mp (reach.returns ((loop k some).mp rounds))
    obtain ⟨t, body, -⟩ := returns_bind.mp round
    obtain ⟨h', header, -⟩ := returns_bind.mp body
    exact (parseHeader_returns_iff left).mp ⟨h', header⟩ r' line
  · intro all
    cases some : moreHeaders (headerStart p) with
    | false =>
        exact ⟨_, Returns.bind ((whileDoM_stop some).mpr rfl) (returns_pure.mpr rfl)⟩
    | true =>
        obtain ⟨k, rounds, -⟩ := doWhileM_total (fun h : HeaderLoop => h.reader.input.length)
          (fun h => Comp.Reaches (headerRound cfg check) (headerStart p) h ∧ h.reader.Fails)
          (fun _ => True)
          (by
            rintro h ⟨reach, left⟩
            obtain ⟨h', header⟩ := (parseHeader_returns_iff left).mpr fun r' => all some h r' reach
            have round : (headerRound cfg check h).Returns (_, _) :=
              Returns.bind (header.bind (returns_pure.mpr rfl)) (returns_pure.mpr rfl)
            refine ⟨_, round, ?_⟩
            split
            · rename_i again
              have positive := again
              simp only [moreHeaders, Bool.and_eq_true, decide_eq_true_eq] at positive
              have progress := parseHeader_progress header (by rw [left.atEnd]; decide)
              exact ⟨⟨reach.trans (.next round again (.refl _)), headerRound_fails left round⟩,
                progress positive.2⟩
            · trivial)
          (headerStart p) ⟨.refl _, start⟩
        exact ⟨_, Returns.bind ((loop k some).mpr rounds) (returns_pure.mpr rfl)⟩

theorem parseRequestLine_returns_iff {cfg : Config} {r : Reader} {q : Request} (fails : r.Fails)
    (unblank : Unblank cfg q.url) : (∃ p, (parseRequestLine cfg r q).Returns p) ↔
      ∀ w, LineWaits cfg r q w → w.Ends := by
  obtain ⟨m, method⟩ := parseMethod_total (r := r) (by rw [fails.atEnd]; decide) q
  have left := fails.follows (parseMethod_follows method)
  have kept : Unblank cfg m.request.url :=
    (urlInvariant parseURL_unblank fun _ _ _ => 0).parseMethod method unblank
  have target := parseURL_returns_iff left kept
  by_cases known : m.request.returnCode = statusUnknown
  · simp only [parseRequestLine, method.bind_iff, if_pos known]
    constructor
    · rintro ⟨p, run⟩ w waits
      obtain ⟨u, url, version⟩ := returns_bind.mp run
      have last := left.follows (parseURL_follows url)
      cases waits with
      | target method' known' =>
          obtain rfl := method.unique method'
          exact target.mp ⟨u, url⟩
      | version method' known' url' eol =>
          obtain rfl := method.unique method'
          obtain rfl := url.unique url'
          exact (parseVersion_returns_iff last u.request).mp ⟨p, version⟩ _ eol
    · intro all
      obtain ⟨u, url⟩ := target.mpr (all _ (.target method known))
      have last := left.follows (parseURL_follows url)
      obtain ⟨p, version⟩ := (parseVersion_returns_iff last u.request).mpr fun r' eol =>
        all _ (.version method known url eol)
      exact ⟨p, url.bind version⟩
  · simp only [parseRequestLine, method.bind_iff, if_neg known]
    refine iff_of_true ⟨m, returns_pure.mpr rfl⟩ fun w waits => ?_
    cases waits with
    | target method' known' => exact absurd (method.unique method' ▸ known') known
    | version method' known' => exact absurd (method.unique method' ▸ known') known

theorem parseRequest_returns_iff {cfg : Config} {check : CheckAuth} {r : Reader} {q : Request}
    (fails : r.Fails) (unblank : Unblank cfg q.url) :
    (∃ p, (parseRequest cfg check r q).Returns p) ↔ ∀ w, Waits cfg check r q w → w.Ends := by
  have first := parseRequestLine_returns_iff fails unblank
  constructor
  · rintro ⟨p, run⟩ w waits
    obtain ⟨l, line, run⟩ := returns_bind.mp run
    have left := fails.follows (parseRequestLine_follows line)
    cases waits with
    | first waits => exact first.mp ⟨l, line⟩ w waits
    | header line' known some reach eol =>
        obtain rfl := line.unique line'
        rw [if_pos known] at run
        exact (parseHeaders_returns_iff left).mp ⟨p, run⟩ some _ _ reach eol
  · intro all
    obtain ⟨l, line⟩ := first.mpr fun w waits => all w (.first waits)
    have left := fails.follows (parseRequestLine_follows line)
    simp only [parseRequest, line.bind_iff]
    by_cases known : l.request.returnCode = statusUnknown
    · simp only [if_pos known]
      exact (parseHeaders_returns_iff left).mpr fun some h r' reach eol =>
        all _ (.header line known some reach eol)
    · simp only [if_neg known]
      exact ⟨l, returns_pure.mpr rfl⟩

theorem accept_unblank {cfg : Config} {s : State} (reachable : Reachable cfg s) (conn : Connection) :
    Unblank cfg (s.accept cfg conn).request.url :=
  show Unblank cfg s.request.url from reachable_unblank reachable

/-- A request over a connection that fails is answered exactly if the parsers find the end of each
target and of each line that they come to. -/
theorem execute_returns_iff {cfg : Config} {s : State} (reachable : Reachable cfg s)
    {conn : Connection} {text : List UInt8} (input : conn.input = sends text)
    (failed : conn.atEnd = .error) :
    (∃ t, (execute cfg conn s).Returns t) ↔
      ∀ w, Waits cfg conn.checkAuth (s.accept cfg conn).reader (s.accept cfg conn).request w →
        w.Ends := by
  have fails : (s.accept cfg conn).reader.Fails := ⟨failed, text, input⟩
  rw [← parseRequest_returns_iff fails (accept_unblank reachable conn)]
  constructor
  · rintro ⟨t, run⟩
    obtain ⟨p, parse, -⟩ := returns_bind.mp run
    exact ⟨p, parse⟩
  · rintro ⟨p, parse⟩
    have left := fails.follows (parseRequest_follows parse)
    obtain ⟨u, answer⟩ := respond_total cfg conn.visit
      (s := { s.accept cfg conn with reader := p.reader, request := p.request })
      (show p.reader.atEnd.ret ≤ 0 by rw [left.atEnd]; decide)
    exact ⟨_, parse.bind (answer.bind (returns_pure.mpr rfl))⟩

def Connection.cut (text : List UInt8) : Connection := { Connection.ofBytes text with atEnd := .error }

def plainServer : State := State.boot.setUp (.default .none) []

def cutText : List UInt8 := ascii "GET /a HTTP/1.0\r\nAccept: text/css\r\n\r\n"

/-- The client is gone behind its headers; one of the lines the run has come to is a header's. -/
theorem execute_returns_cut : ∃ t p r',
    (execute (.default .none) (.cut cutText) plainServer).Returns t ∧
    (parseRequestLine (.default .none) (plainServer.accept (.default .none) (.cut cutText)).reader
      (plainServer.accept (.default .none) (.cut cutText)).request).Returns p ∧
    HeaderLine (.default .none) (headerStart p) r' ∧ (Wait.line r').Ends := by
  obtain ⟨⟨p, t⟩, both, found⟩ := returns_of_run (n := 100)
    (x := do
      let p ← parseRequestLine (.default .none)
        (plainServer.accept (.default .none) (.cut cutText)).reader
        (plainServer.accept (.default .none) (.cut cutText)).request
      let t ← execute (.default .none) (.cut cutText) plainServer
      pure (p, t))
    (f := fun both : Parsed × State => (both.1.request.returnCode, moreHeaders (headerStart both.1)))
    (b := (statusUnknown, true)) (by decide +kernel)
  obtain ⟨known, more⟩ := Prod.mk.inj found
  obtain ⟨p', line, both⟩ := returns_bind.mp both
  obtain ⟨t', run, both⟩ := returns_bind.mp both
  obtain ⟨rfl, rfl⟩ := Prod.mk.inj (returns_pure.mp both)
  have ends := (execute_returns_iff (reachable_setUp _ _)
    (show (Connection.cut cutText).input = sends cutText from rfl) rfl).mp ⟨t, run⟩
  have fails : (headerStart p).reader.Fails :=
    Reader.Fails.follows (r := (plainServer.accept (.default .none) (.cut cutText)).reader)
      ⟨rfl, cutText, rfl⟩
      ((enter_follows _).trans ((enter_follows _).trans (parseRequestLine_follows line)))
  obtain ⟨f, name⟩ := fill_total (fun c => c == 58) (fun ret => 0 < ret) 63 (headerStart p).name
    (headerStart p).reader
  have left := fails.follows (fill_follows name)
  obtain ⟨u, space⟩ := parseSpace_total (r := f.reader) (by rw [left.atEnd]; decide)
  obtain ⟨g, value⟩ := fill_total (fun c => c == 13 || c == 10) (fun ret => 0 < ret) 63
    (headerStart p).value u.reader
  have eol : HeaderLine (.default .none) (headerStart p) _ := .value name space value
  exact ⟨t, p, _, run, line, eol, ends _ (.header line known more (.refl _) eol)⟩
theorem target_waits : ¬ ∃ t, (execute (.default .none) (.cut (ascii "GET /a"))
    (State.boot.setUp (.default .none) [])).Returns t := by
  have reachable := reachable_setUp (.default .none) []
  generalize State.boot.setUp (.default .none) [] = s at reachable
  have fails : (s.accept (.default .none) (.cut (ascii "GET /a"))).reader.Fails := ⟨rfl, _, rfl⟩
  have line : (s.accept (.default .none) (.cut (ascii "GET /a"))).reader.pending =
      sends HttpMethod.get.name ++ .byte 32 :: sends (ascii "/a") := rfl
  obtain ⟨r, method, left⟩ := parseMethod_text
    (q := (s.accept (.default .none) (.cut (ascii "GET /a"))).request) get_known line (by decide)
  rintro ⟨t, run⟩
  obtain ⟨p, parse, -⟩ := returns_bind.mp run
  obtain ⟨l, line, -⟩ := returns_bind.mp parse
  have ends := (parseRequestLine_returns_iff fails (accept_unblank reachable _)).mp ⟨l, line⟩ _
    (.target method rfl)
  rw [Wait.Ends, Reader.text, left, delivered_sends] at ends
  obtain ⟨b, member, blank⟩ := ends (by decide)
  revert b
  decide

end AttoHTTP
