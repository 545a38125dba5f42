import AttoHTTP.Proof.Entry

namespace AttoHTTP
open Library Comp

variable {cfg : Config}

/-- The read that comes after `n` others. -/
def Reader.read (r : Reader) (n : Nat) : GetByte := r.pending.getD n r.atEnd

theorem read_zero (r : Reader) : r.read 0 = r.next := by
  unfold Reader.read Reader.next
  cases r.pending <;> rfl

theorem readC_read (c : UInt8) (r : Reader) (n : Nat) :
    (readC c r).reader.read n = r.read (n + 1) := by
  unfold Reader.read
  rw [readC_pending, readC_atEnd]
  cases r.pending <;> simp

def GetByte.goesOn : GetByte → Bool
  | .byte b => !isBlank b
  | .error => true
  | _ => false

@[simp]
theorem GetByte.goesOn_byte (b : UInt8) : (GetByte.byte b).goesOn = !isBlank b := rfl

/-- It ends the target as it should be ended, by a blank or a terminator. -/
def GetByte.endsTarget : GetByte → Bool
  | .byte b => isBlank b
  | .zero => true
  | _ => false

structure Query where
  start : Nat
  text : List UInt8

def Query.stop (y : Query) : Nat := y.start + y.text.length

/-- Of what fits the URL buffer, this stands behind the last question mark: no read fails there, and
none gives a NUL. Without a question mark there is no query. -/
inductive Reader.Brings (cfg : Config) (r : Reader) : Option Query → Prop
  | query {k : Nat} {text : List UInt8} (before : ∀ i < k, (r.read i).goesOn)
      (mark : r.read k = .byte 63)
      (sent : ∀ i (h : i < text.length), r.read (k + 1 + i) = .byte text[i])
      (plain : ∀ b ∈ text, isBlank b = false ∧ b ≠ 63 ∧ b ≠ 0)
      (fits : k + 1 + text.length ≤ cfg.urlBufferSize - 1)
      (ends : k + 1 + text.length < cfg.urlBufferSize - 1 →
        (r.read (k + 1 + text.length)).endsTarget) :
      r.Brings cfg (some ⟨k + 1, text⟩)
  | nothing (unmarked : ∀ k < cfg.urlBufferSize - 1, (∀ i < k, (r.read i).goesOn) →
      r.read k ≠ .byte 63) : r.Brings cfg none

/-! ## No cell holds a question mark -/

def Unmarked (cfg : Config) (m : Mem) : Prop := ∀ i, i < cfg.urlBufferSize → m i ≠ 63

theorem Unmarked.set {m : Mem} (unmarked : Unmarked cfg m) (i : Nat) {b : UInt8} (other : b ≠ 63) :
    Unmarked cfg (m.set i b) := by
  intro j inside
  rw [Mem.set_apply]
  split
  · exact other
  · exact unmarked j inside

def Parsed.stored (p : Parsed) : UInt8 := p.reader.next.store (p.request.url p.request.urlLen)

theorem parseURLStep_stops {p : Parsed} (blank : isBlank p.stored = true) :
    (parseURLStep cfg p).2 = false ∧ (parseURLStep cfg p).1.request =
      { p.request with url := p.request.url.set p.request.urlLen p.stored } := by
  unfold Parsed.stored at blank ⊢
  simp only [parseURLStep, readC_c, blank, if_true]
  exact ⟨trivial, trivial⟩

theorem parseURLStep_keeps {p : Parsed} (nonblank : isBlank p.stored = false) :
    (parseURLStep cfg p).2 = (decide (p.reader.next.ret ≠ 0) &&
        decide (p.request.urlLen + 1 < cfg.urlBufferSize - 1)) ∧
      (∀ n, (parseURLStep cfg p).1.reader.read n = p.reader.read (n + 1)) ∧
      (parseURLStep cfg p).1.request =
        if p.stored = 63 then
          { p.request with
            url := p.request.url.set p.request.urlLen 0
            urlParams := .url (p.request.urlLen + 1)
            urlParamsStart := p.request.urlLen + 1
            urlLen := p.request.urlLen + 1 }
        else
          { p.request with
            url := p.request.url.set p.request.urlLen p.stored
            urlLen := p.request.urlLen + 1 } := by
  unfold Parsed.stored at nonblank ⊢
  simp only [parseURLStep, readC_c, readC_ret, nonblank, Bool.false_eq_true, if_false]
  by_cases mark : p.reader.next.store (p.request.url p.request.urlLen) = 63
  · simp only [if_pos mark, Mem.set_set]
    exact ⟨trivial, fun n => readC_read _ _ n, trivial⟩
  · simp only [if_neg mark]
    exact ⟨trivial, fun n => readC_read _ _ n, trivial⟩

theorem parseURLStep_unmarked {p : Parsed} (unmarked : Unmarked cfg p.request.url) :
    Unmarked cfg (parseURLStep cfg p).1.request.url := by
  cases blank : isBlank p.stored with
  | true =>
      rw [(parseURLStep_stops blank).2]
      refine unmarked.set _ ?_
      intro mark
      rw [mark] at blank
      exact absurd blank (by decide)
  | false =>
      rw [(parseURLStep_keeps blank).2.2]
      split
      · exact unmarked.set _ (by decide)
      · rename_i other
        exact unmarked.set _ other

theorem parseURL_unmarked : ParseKeeps cfg (Unmarked cfg) := by
  intro r q p h unmarked
  obtain ⟨t, -, h⟩ := returns_bind.mp h
  split at h
  · obtain ⟨u, loop, h⟩ := returns_bind.mp h
    obtain ⟨g, -, h⟩ := returns_bind.mp h
    rw [returns_pure.mp h]
    have looped : Unmarked cfg u.request.url := by
      refine doWhile_invariant (fun p => Unmarked cfg p.request.url)
        (fun p => Unmarked cfg p.request.url) ?_ loop unmarked
      intro p unmarked
      have step := parseURLStep_unmarked unmarked
      split <;> exact step
    exact looped.set _ (by decide)
  · rw [returns_pure.mp h]
    exact unmarked

theorem reachable_unmarked {s : State} (h : Reachable cfg s) : Unmarked cfg s.request.url := by
  refine reachable_url (fun m i unmarked => unmarked.set i (by decide)) parseURL_unmarked ?_ h
  intro m zeros i inside
  rw [zeros i inside]
  decide

/-! ## The loop -/

/-- The loop over the target has read as many bytes as it has stored. -/
structure Parsed.Along (cfg : Config) (r : Reader) (p : Parsed) : Prop where
  reads : ∀ i, p.reader.read i = r.read (p.request.urlLen + i)
  unblank : Unblank cfg p.request.url
  unmarked : Unmarked cfg p.request.url
  room : p.request.urlLen < cfg.urlBufferSize - 1

theorem Parsed.Along.next {r : Reader} {p : Parsed} (along : p.Along cfg r) :
    p.reader.next = r.read p.request.urlLen := by
  rw [← read_zero, along.reads 0, Nat.add_zero]

theorem Parsed.Along.step {r : Reader} {p : Parsed} (along : p.Along cfg r)
    (nonblank : isBlank p.stored = false) (again : (parseURLStep cfg p).2 = true) :
    (parseURLStep cfg p).1.Along cfg r := by
  obtain ⟨flag, reads, request⟩ := @parseURLStep_keeps cfg _ nonblank
  have unblank := parseURLStep_unblank along.unblank
  rw [if_pos again] at unblank
  rw [flag, Bool.and_eq_true, decide_eq_true_eq, decide_eq_true_eq] at again
  have len : (parseURLStep cfg p).1.request.urlLen = p.request.urlLen + 1 := by
    rw [request]
    split <;> rfl
  refine ⟨fun i => ?_, unblank, parseURLStep_unmarked along.unmarked, len ▸ again.2⟩
  rw [reads, along.reads, len, show p.request.urlLen + 1 + i = p.request.urlLen + (i + 1) by omega]

inductive Request.HasQuery (cfg : Config) (q : Request) : Option Query → Prop
  | query {y : Query} (params : q.urlParams = .url y.start) (start : q.urlParamsStart = y.start)
      (path : ∃ k, y.start = k + 1 ∧ q.url k = 0)
      (cells : ∀ i (h : i < y.text.length), q.url (y.start + i) = y.text[i])
      (ended : q.url y.stop = 0) (inside : y.stop < cfg.urlBufferSize)
      (plain : ∀ b ∈ y.text, b ≠ 0) : q.HasQuery cfg (some y)
  | nothing (params : q.urlParams = .null 0) (start : q.urlParamsStart = cfg.urlBufferSize) :
      q.HasQuery cfg none

structure Request.Keeps (k : Nat) (text : List UInt8) (q : Request) : Prop where
  params : q.urlParams = .url (k + 1)
  start : q.urlParamsStart = k + 1
  path : q.url k = 0
  cells : ∀ i (h : i < text.length), k + 1 + i < q.urlLen → q.url (k + 1 + i) = text[i]

def Request.Holds (k : Nat) (text : List UInt8) (q : Request) : Prop :=
  q.Keeps k text ∧ (q.urlLen = k + 1 + text.length ∨
    q.urlLen = k + 1 + text.length + 1 ∧ q.url (k + 1 + text.length) = 0)

theorem goesOn_stored {r : Reader} {p : Parsed} (along : p.Along cfg r)
    (goes : (r.read p.request.urlLen).goesOn = true) :
    isBlank p.stored = false ∧ p.reader.next.ret ≠ 0 := by
  have stale := along.unblank p.request.urlLen (by have := along.room; omega)
  unfold Parsed.stored
  rw [along.next]
  cases read : r.read p.request.urlLen with
  | byte b =>
      rw [read] at goes
      exact ⟨by simpa using goes, show (1 : Int8) ≠ 0 by decide⟩
  | error => exact ⟨stale, show (-1 : Int8) ≠ 0 by decide⟩
  | zero => rw [read] at goes; cases goes
  | timeout => rw [read] at goes; cases goes

theorem stored_byte {r : Reader} {p : Parsed} (along : p.Along cfg r) {b : UInt8}
    (read : r.read p.request.urlLen = .byte b) : p.stored = b ∧ p.reader.next.ret = 1 := by
  unfold Parsed.stored
  rw [along.next, read]
  exact ⟨rfl, rfl⟩

/-- After a round the loop is in front of the question mark or in the query, or has stored it all. -/
def QueryStep (cfg : Config) (r : Reader) (k : Nat) (text : List UInt8) (p : Parsed) : Prop :=
  if (parseURLStep cfg p).2 then
    (parseURLStep cfg p).1.Along cfg r ∧ ((parseURLStep cfg p).1.request.urlLen ≤ k ∨
      k < (parseURLStep cfg p).1.request.urlLen ∧
        (parseURLStep cfg p).1.request.urlLen ≤ k + 1 + text.length ∧
        (parseURLStep cfg p).1.request.Keeps k text)
  else (parseURLStep cfg p).1.request.Holds k text

section Query

variable {r : Reader} {k : Nat} {text : List UInt8} {p : Parsed}

theorem queryStep_before (along : p.Along cfg r) (goes : (r.read p.request.urlLen).goesOn = true)
    (less : p.request.urlLen < k) (fits : k + 1 + text.length ≤ cfg.urlBufferSize - 1) :
    QueryStep cfg r k text p := by
  obtain ⟨nonblank, success⟩ := goesOn_stored along goes
  obtain ⟨flag, -, request⟩ := @parseURLStep_keeps cfg _ nonblank
  have again : (parseURLStep cfg p).2 = true := by
    rw [flag, decide_eq_true success]
    exact decide_eq_true (by omega)
  rw [QueryStep, if_pos again]
  refine ⟨along.step nonblank again, .inl ?_⟩
  rw [request]
  split <;> exact less

/-- A byte has been stored; the loop ends behind it only where the buffer does. -/
theorem queryStep_stored (along : p.Along cfg r) (nonblank : isBlank p.stored = false)
    (ret : p.reader.next.ret = 1) (keeps : (parseURLStep cfg p).1.request.Keeps k text)
    (len : (parseURLStep cfg p).1.request.urlLen = p.request.urlLen + 1)
    (behind : k ≤ p.request.urlLen) (inside : p.request.urlLen ≤ k + text.length)
    (fits : k + 1 + text.length ≤ cfg.urlBufferSize - 1) : QueryStep cfg r k text p := by
  unfold QueryStep
  split
  · rename_i again
    exact ⟨along.step nonblank again, .inr ⟨by omega, by omega, keeps⟩⟩
  · rename_i stop
    rw [(@parseURLStep_keeps cfg _ nonblank).1, ret] at stop
    have full : ¬ p.request.urlLen + 1 < cfg.urlBufferSize - 1 := by simpa using stop
    exact ⟨keeps, .inl (by omega)⟩

theorem queryStep_mark (along : p.Along cfg r) (mark : r.read p.request.urlLen = .byte 63)
    (here : p.request.urlLen = k) (fits : k + 1 + text.length ≤ cfg.urlBufferSize - 1) :
    QueryStep cfg r k text p := by
  obtain ⟨stored, ret⟩ := stored_byte along mark
  have nonblank : isBlank p.stored = false := by
    rw [stored]
    decide
  obtain ⟨-, -, request⟩ := @parseURLStep_keeps cfg _ nonblank
  rw [if_pos stored] at request
  have keeps : (parseURLStep cfg p).1.request.Keeps k text := by
    rw [request, here]
    refine ⟨rfl, rfl, Mem.set_self .., fun i _ less => ?_⟩
    dsimp only at less
    omega
  exact queryStep_stored along nonblank ret keeps (by rw [request]) here.ge (by omega) fits

theorem queryStep_byte (along : p.Along cfg r) (keeps : p.request.Keeps k text) {i : Nat}
    (place : p.request.urlLen = k + 1 + i) (inside : i < text.length)
    (sent : r.read p.request.urlLen = .byte text[i])
    (plain : isBlank text[i] = false ∧ text[i] ≠ 63)
    (fits : k + 1 + text.length ≤ cfg.urlBufferSize - 1) : QueryStep cfg r k text p := by
  obtain ⟨stored, ret⟩ := stored_byte along sent
  obtain ⟨nonblank, unmarked⟩ := plain
  rw [← stored] at nonblank unmarked
  obtain ⟨-, -, request⟩ := @parseURLStep_keeps cfg _ nonblank
  rw [if_neg unmarked] at request
  have other {n : Nat} (h : n ≠ p.request.urlLen) :
      p.request.url.set p.request.urlLen p.stored n = p.request.url n := Mem.set_of_ne _ _ h
  have keeps' : (parseURLStep cfg p).1.request.Keeps k text := by
    rw [request]
    refine ⟨keeps.params, keeps.start, (other (by omega)).trans keeps.path, fun j h less => ?_⟩
    dsimp only at less ⊢
    by_cases same : j = i
    · subst same
      rw [← place, Mem.set_self, stored]
    · rw [other (by omega)]
      exact keeps.cells j h (by omega)
  exact queryStep_stored along nonblank ret keeps' (by rw [request]) (by omega) (by omega) fits

theorem queryStep_end (along : p.Along cfg r) (keeps : p.request.Keeps k text)
    (place : p.request.urlLen = k + 1 + text.length)
    (ends : (r.read p.request.urlLen).endsTarget = true) : QueryStep cfg r k text p := by
  have stored : p.stored = (r.read p.request.urlLen).store (p.request.url p.request.urlLen) := by
    rw [Parsed.stored, along.next]
  have other (b : UInt8) {n : Nat} (h : n ≠ p.request.urlLen) :
      p.request.url.set p.request.urlLen b n = p.request.url n := Mem.set_of_ne _ b h
  unfold QueryStep
  cases read : r.read p.request.urlLen with
  | byte b =>
      rw [read] at ends stored
      have blank : isBlank p.stored = true := stored ▸ ends
      obtain ⟨stop, request⟩ := @parseURLStep_stops cfg _ blank
      rw [stop, if_neg (by decide), request]
      refine ⟨⟨keeps.params, keeps.start, (other _ (by omega)).trans keeps.path, fun j h less => ?_⟩,
        .inl place⟩
      exact (other _ (by omega)).trans (keeps.cells j h less)
  | zero =>
      rw [read] at stored
      have zero : p.stored = 0 := stored
      have nonblank : isBlank p.stored = false := by
        rw [zero]
        decide
      obtain ⟨flag, -, request⟩ := @parseURLStep_keeps cfg _ nonblank
      have stop : (parseURLStep cfg p).2 = false := by
        rw [flag, along.next, read]
        rfl
      rw [if_neg (show ¬ p.stored = 63 by rw [zero]; decide)] at request
      rw [stop, if_neg (by decide), request]
      refine ⟨⟨keeps.params, keeps.start, (other _ (by omega)).trans keeps.path, fun j h less => ?_⟩,
        .inr ⟨congrArg (· + 1) place, ?_⟩⟩
      · exact (other _ (by omega)).trans (keeps.cells j h (by omega))
      · dsimp only
        rw [← place, Mem.set_self, zero]
  | timeout => rw [read] at ends; cases ends
  | error => rw [read] at ends; cases ends

theorem urlLoop_query (before : ∀ i < k, (r.read i).goesOn) (mark : r.read k = .byte 63)
    (sent : ∀ i (h : i < text.length), r.read (k + 1 + i) = .byte text[i])
    (plain : ∀ b ∈ text, isBlank b = false ∧ b ≠ 63 ∧ b ≠ 0)
    (fits : k + 1 + text.length ≤ cfg.urlBufferSize - 1)
    (ends : k + 1 + text.length < cfg.urlBufferSize - 1 →
      (r.read (k + 1 + text.length)).endsTarget)
    {u : Parsed} (along : p.Along cfg r) (first : p.request.urlLen = 0)
    (loop : (doWhile (parseURLStep cfg) p).Returns u) : u.request.Holds k text := by
  refine doWhile_invariant
    (fun p => p.Along cfg r ∧ (p.request.urlLen ≤ k ∨
      k < p.request.urlLen ∧ p.request.urlLen ≤ k + 1 + text.length ∧ p.request.Keeps k text))
    (fun p => p.request.Holds k text) ?_ loop ⟨along, .inl (by omega)⟩
  rintro p ⟨along, place⟩
  change QueryStep cfg r k text p
  rcases place with early | ⟨behind, inside, keeps⟩
  · rcases early.lt_or_eq with less | here
    · exact queryStep_before along (before _ less) less fits
    · exact queryStep_mark along (here ▸ mark) here fits
  · obtain ⟨i, place⟩ : ∃ i, p.request.urlLen = k + 1 + i := ⟨p.request.urlLen - (k + 1), by omega⟩
    rcases Nat.lt_or_ge i text.length with within | last
    · obtain ⟨nonblank, unmarked, -⟩ := plain _ (List.getElem_mem within)
      exact queryStep_byte along keeps place within (place ▸ sent i within) ⟨nonblank, unmarked⟩ fits
    · have place' : p.request.urlLen = k + 1 + text.length := by omega
      exact queryStep_end along keeps place' (place' ▸ ends (place' ▸ along.room))

end Query

theorem urlLoop_nothing {r : Reader}
    (none : ∀ k < cfg.urlBufferSize - 1, (∀ i < k, (r.read i).goesOn) → r.read k ≠ .byte 63)
    {p u : Parsed} (along : p.Along cfg r) (first : p.request.urlLen = 0)
    (loop : (doWhile (parseURLStep cfg) p).Returns u) :
    u.request.urlParams = p.request.urlParams ∧
      u.request.urlParamsStart = p.request.urlParamsStart := by
  refine doWhile_invariant
    (fun t => t.Along cfg r ∧ (∀ i < t.request.urlLen, (r.read i).goesOn) ∧
      t.request.urlParams = p.request.urlParams ∧
      t.request.urlParamsStart = p.request.urlParamsStart)
    (fun t => t.request.urlParams = p.request.urlParams ∧
      t.request.urlParamsStart = p.request.urlParamsStart) ?_ loop
    ⟨along, fun i less => absurd less (by omega), rfl, rfl⟩
  rintro t ⟨along, before, same⟩
  cases blank : isBlank t.stored with
  | true =>
      obtain ⟨stop, request⟩ := @parseURLStep_stops cfg _ blank
      rw [stop, if_neg (by decide), request]
      exact same
  | false =>
      obtain ⟨flag, -, request⟩ := @parseURLStep_keeps cfg _ blank
      have room := along.room
      have stale := along.unmarked t.request.urlLen (by omega)
      have unmarked : t.stored ≠ 63 := by
        have absent := none _ room before
        unfold Parsed.stored
        rw [along.next]
        cases read : r.read t.request.urlLen with
        | byte b =>
            rw [read] at absent
            exact fun mark => absent (congrArg GetByte.byte mark)
        | zero => exact show (0 : UInt8) ≠ 63 by decide
        | timeout => exact stale
        | error => exact stale
      rw [if_neg unmarked] at request
      split
      · rename_i again
        refine ⟨along.step blank again, ?_, ?_⟩
        · rw [flag, Bool.and_eq_true, decide_eq_true_eq] at again
          rw [request]
          intro i less
          rcases Nat.lt_succ_iff_lt_or_eq.mp less with old | rfl
          · exact before i old
          · have success := again.1
            unfold Parsed.stored at blank
            rw [along.next] at success blank
            cases read : r.read t.request.urlLen with
            | byte b =>
                rw [read] at blank
                simpa using blank
            | error => rfl
            | zero => rw [read] at success; exact absurd rfl success
            | timeout => rw [read] at success; exact absurd rfl success
        · rw [request]
          exact same
      · rw [request]
        exact same

/-- The query of the request, as the reads behind the method and its blanks bring it. -/
def Connection.Brings (cfg : Config) (conn : Connection) (s : State) (found : Option Query) : Prop :=
  ∀ m t, (parseMethod (s.accept cfg conn).reader (s.accept cfg conn).request).Returns m →
    (parseSpace m.reader).Returns t → if 0 < t.ret then t.reader.Brings cfg found else found = none

theorem parseURL_query {r : Reader} {q : Request} {p : Parsed} {found : Option Query}
    (brings : ∀ t, (parseSpace r).Returns t →
      if 0 < t.ret then t.reader.Brings cfg found else found = none)
    (unblank : Unblank cfg q.url) (unmarked : Unmarked cfg q.url)
    (params : q.urlParams = .null 0) (start : q.urlParamsStart = cfg.urlBufferSize)
    (h : (parseURL cfg r q).Returns p) : p.request.HasQuery cfg found := by
  obtain ⟨t, space, h⟩ := returns_bind.mp h
  have brings := brings t space
  have size := cfg.url_ge
  split at h
  · rename_i positive
    rw [if_pos positive] at brings
    obtain ⟨u, loop, h⟩ := returns_bind.mp h
    obtain ⟨g, -, h⟩ := returns_bind.mp h
    rw [returns_pure.mp h]
    have along : Parsed.Along cfg t.reader ⟨t.ret, t.reader, { q with urlLen := 0 }⟩ :=
      ⟨fun i => by simp, unblank, unmarked, show 0 < cfg.urlBufferSize - 1 by omega⟩
    cases brings with
    | @query k text before mark sent plain fits ends =>
        obtain ⟨keeps, len⟩ := urlLoop_query before mark sent plain fits ends along rfl loop
        have other {i : Nat} (h : i ≠ u.request.urlLen) :
            u.request.url.set u.request.urlLen 0 i = u.request.url i := Mem.set_of_ne _ 0 h
        refine .query keeps.params keeps.start ⟨k, rfl, (other (by omega)).trans keeps.path⟩
          (fun i h => ?_) ?_ (show k + 1 + text.length < cfg.urlBufferSize by omega)
          fun b member => (plain b member).2.2
        · have inside : i < text.length := h
          have place : k + 1 + i ≠ u.request.urlLen := by omega
          exact (other place).trans (keeps.cells i h (by omega))
        · change u.request.url.set u.request.urlLen 0 (k + 1 + text.length) = 0
          rcases len with same | ⟨more, zero⟩
          · rw [← same, Mem.set_self]
          · rw [other (by omega), zero]
    | nothing none =>
        obtain ⟨same, same'⟩ := urlLoop_nothing none along rfl loop
        exact .nothing (same.trans params) (same'.trans start)
  · rename_i ended
    rw [if_neg ended] at brings
    rw [returns_pure.mp h, brings]
    exact .nothing params start

end AttoHTTP
