import AttoHTTP.Proof.JsonMachine
import AttoHTTP.Proof.Leftovers

/-!
# Where a JSON parameter is stored

The characters and the terminators fit their buffers. An element without a key is copied from one
buffer to the other, and is ended there only if it is shorter than that one.
-/

namespace AttoHTTP
open Library Comp

/-! ## Elements without a key -/

def JsonSym.count : JsonSym → Nat
  | .char => 1
  | _ => 0

/-- What is read next is an element of `n` characters without a divider. -/
inductive Keyless : JsonScan → Reader → Nat → Prop
  | past {s : JsonScan} {r : Reader} (none : ∀ c, r.next = .byte c → c = 0) : Keyless s r 0
  | next {s s' : JsonScan} {r : Reader} {c : UInt8} {sym : JsonSym} {n : Nat}
      (char : r.next = .byte c) (nonzero : c ≠ 0) (lex : s.lex c = (s', sym, .next))
      (plain : sym ≠ .divide) (rest : Keyless s' (readC 0 r).reader n) :
      Keyless s r (sym.count + n)
  | last {s s' : JsonScan} {r : Reader} {c : UInt8} {sym : JsonSym} {move : JsonMove}
      (char : r.next = .byte c) (nonzero : c ≠ 0) (lex : s.lex c = (s', sym, move))
      (plain : sym ≠ .divide) (leaves : move ≠ .next) : Keyless s r sym.count

theorem Keyless.same {s : JsonScan} {r r' : Reader} {n : Nat} (h : Keyless s r n)
    (same : r.Same r') : Keyless s r' n := by
  induction h generalizing r' with
  | past none => exact .past fun c next => none c (by rw [← same.next, next])
  | next char nonzero lex plain rest ih =>
      exact .next (same.next.trans char) nonzero lex plain (ih (readC_same same 0 0).2.1)
  | last char nonzero lex plain leaves =>
      exact .last (same.next.trans char) nonzero lex plain leaves

/-! ## Room -/

variable {nl vl : UInt8} {v : JsonView} {c : UInt8} {n : Nat}

structure JsonView.Fits (nl vl : UInt8) (v : JsonView) : Prop where
  name : v.name.length < nl.toNat
  nonzero : ∀ b ∈ v.name, b ≠ 0
  room : 0 < v.valueLen
  value : v.value.length + v.valueLen.toNat = vl.toNat

structure JsonView.Open (nl : UInt8) (n : Nat) (v : JsonView) : Prop where
  nameLen : 0 < v.nameLen
  room : v.name.length + v.nameLen.toNat = nl.toNat
  length : v.name.length = min n (nl.toNat - 1)
  value : v.value = []
  divider : v.divider = 0

structure JsonView.Divided (v : JsonView) : Prop where
  nameLen : v.nameLen = 0
  divider : v.divider ≠ 0

theorem start_fits (named : 0 < nl) (valued : 0 < vl) (j : JsonState) :
    (JsonView.start nl vl j).Fits nl vl := by
  have name : 0 < nl.toNat := UInt8.lt_iff_toNat_lt.mp named
  exact ⟨name, by simp [JsonView.start], valued, by simp [JsonView.start]⟩

theorem start_open (named : 0 < nl) (j : JsonState) : (JsonView.start nl vl j).Open nl 0 :=
  ⟨named, by simp [JsonView.start], by simp [JsonView.start], rfl, rfl⟩

theorem store_open (fits : v.Fits nl vl) (opened : v.Open nl n) (nonzero : c ≠ 0) :
    (v.store c).Fits nl vl ∧ (v.store c).Open nl (n + 1) := by
  have positive := UInt8.lt_iff_toNat_lt.mp opened.nameLen
  have room := opened.room
  have length := opened.length
  simp only [UInt8.toNat_zero] at positive
  rw [JsonView.store, if_pos opened.nameLen]
  by_cases more : 1 < v.nameLen
  · rw [if_pos more]
    have one := sub_one_toNat (UInt8.pos_iff_ne_zero.mp opened.nameLen)
    rw [UInt8.lt_iff_toNat_lt, UInt8.toNat_one] at more
    refine ⟨⟨?_, ?_, fits.room, fits.value⟩, ⟨?_, ?_, ?_, opened.value, opened.divider⟩⟩
    · simp only [List.length_append, List.length_singleton]
      omega
    · simpa [or_imp, forall_and] using ⟨fits.nonzero, nonzero⟩
    · rw [UInt8.lt_iff_toNat_lt, UInt8.toNat_zero]
      dsimp only
      omega
    · simp only [List.length_append, List.length_singleton]
      omega
    · simp only [List.length_append, List.length_singleton]
      omega
  · rw [if_neg more]
    rw [UInt8.lt_iff_toNat_lt, UInt8.toNat_one] at more
    exact ⟨fits, ⟨opened.nameLen, room, by omega, opened.value, opened.divider⟩⟩

theorem store_divided (fits : v.Fits nl vl) (divided : v.Divided) (c : UInt8) :
    (v.store c).Fits nl vl ∧ (v.store c).Divided := by
  have closed : ¬ 0 < v.nameLen := by
    rw [divided.nameLen]
    decide
  rw [JsonView.store, if_neg closed]
  by_cases more : 1 < v.valueLen
  · rw [if_pos more]
    have one := sub_one_toNat (UInt8.pos_iff_ne_zero.mp fits.room)
    have value := fits.value
    rw [UInt8.lt_iff_toNat_lt, UInt8.toNat_one] at more
    refine ⟨⟨fits.name, fits.nonzero, ?_, ?_⟩, divided.nameLen, divided.divider⟩
    · rw [UInt8.lt_iff_toNat_lt, UInt8.toNat_zero]
      dsimp only
      omega
    · simp only [List.length_append, List.length_singleton]
      omega
  · rw [if_neg more]
    exact ⟨fits, divided⟩

theorem feed_open (fits : v.Fits nl vl) (opened : v.Open nl n) (nonzero : c ≠ 0)
    {s : JsonScan} {sym : JsonSym} {move : JsonMove} (lex : v.scan.lex c = (s, sym, move))
    (plain : sym ≠ .divide) :
    (v.feed c).Fits nl vl ∧ (v.feed c).Open nl (n + sym.count) := by
  unfold JsonView.feed JsonView.after
  rw [lex]
  cases sym with
  | divide => exact absurd rfl plain
  | skip =>
      exact ⟨⟨fits.name, fits.nonzero, fits.room, fits.value⟩,
        ⟨opened.nameLen, opened.room, opened.length, opened.value, opened.divider⟩⟩
  | char =>
      obtain ⟨fits', opened'⟩ := store_open fits opened nonzero
      exact ⟨⟨fits'.name, fits'.nonzero, fits'.room, fits'.value⟩,
        ⟨opened'.nameLen, opened'.room, opened'.length, opened'.value, opened'.divider⟩⟩

theorem feed_divide (fits : v.Fits nl vl) (nonzero : c ≠ 0)
    (divide : (v.scan.lex c).2.1 = .divide) : (v.feed c).Fits nl vl ∧ (v.feed c).Divided := by
  unfold JsonView.feed JsonView.after
  rw [divide]
  exact ⟨⟨fits.name, fits.nonzero, fits.room, fits.value⟩, rfl, nonzero⟩

theorem feed_divided (fits : v.Fits nl vl) (divided : v.Divided) (nonzero : c ≠ 0) :
    (v.feed c).Fits nl vl ∧ (v.feed c).Divided := by
  cases sym : (v.scan.lex c).2.1 with
  | divide => exact feed_divide fits nonzero sym
  | skip =>
      unfold JsonView.feed JsonView.after
      rw [sym]
      exact ⟨⟨fits.name, fits.nonzero, fits.room, fits.value⟩, divided.nameLen, divided.divider⟩
  | char =>
      obtain ⟨fits', divided'⟩ := store_divided fits divided c
      unfold JsonView.feed JsonView.after
      rw [sym]
      exact ⟨⟨fits'.name, fits'.nonzero, fits'.room, fits'.value⟩, divided'.nameLen,
        divided'.divider⟩

/-! ## Calls -/

variable {name value : Mem} {ret : Int8} {r : Reader} {t : JsonLoop}

theorem read_iff (c : UInt8) (r : Reader) : (0 < (readC c r).ret ∧ (readC c r).c ≠ 0) ↔
    ∃ b, r.next = .byte b ∧ b ≠ 0 := by
  rw [readC_ret, readC_c, ret_pos_iff]
  constructor
  · rintro ⟨⟨b, byte⟩, nonzero⟩
    rw [byte] at nonzero
    exact ⟨b, byte, nonzero⟩
  · rintro ⟨b, byte, nonzero⟩
    rw [byte]
    exact ⟨⟨b, rfl⟩, nonzero⟩

theorem jsonStep_read {b : UInt8} (next : r.next = .byte b) (nonzero : b ≠ 0) :
    jsonStep (v.loop name value ret c r) =
      ((v.feed b).loop name value 1 b ((v.scan.lex b).2.2.reader b (readC 0 r).reader),
        (v.scan.lex b).2.2.again && 0 < (v.feed b).valueLen) := by
  rw [jsonStep_loop]
  dsimp only
  rw [if_pos ((read_iff c r).mpr ⟨b, next, nonzero⟩), readC_ret, readC_c, next, readC_reader c 0]
  rfl

theorem feed_fits (fits : v.Fits nl vl) (nonzero : c ≠ 0) (opened : v.Open nl n) :
    (v.feed c).Fits nl vl ∧ ((v.feed c).Divided ∨ ∃ s sym move, v.scan.lex c = (s, sym, move) ∧
      sym ≠ .divide ∧ (v.feed c).scan = s ∧ (v.feed c).Open nl (n + sym.count)) := by
  rcases lex : v.scan.lex c with ⟨s, sym, move⟩
  by_cases divide : sym = .divide
  · obtain ⟨fits', divided⟩ := feed_divide fits nonzero (by rw [lex]; exact divide)
    exact ⟨fits', .inl divided⟩
  · obtain ⟨fits', opened'⟩ := feed_open fits opened nonzero lex divide
    refine ⟨fits', .inr ⟨s, sym, move, rfl, divide, ?_, opened'⟩⟩
    rw [JsonView.feed, lex]
    rfl

theorem jsonLoop_divided (h : (doWhile jsonStep (v.loop name value ret c r)).Returns t)
    (fits : v.Fits nl vl) (divided : v.Divided) :
    ∃ w ret' c' r', t = JsonView.loop w name value ret' c' r' ∧ w.Fits nl vl ∧ w.Divided := by
  refine doWhile_invariant
    (fun s => ∃ v ret c r, s = JsonView.loop v name value ret c r ∧ v.Fits nl vl ∧ v.Divided)
    (fun s => ∃ v ret c r, s = JsonView.loop v name value ret c r ∧ v.Fits nl vl ∧ v.Divided) ?_ h
    ⟨v, ret, c, r, rfl, fits, divided⟩
  rintro _ ⟨v, ret, c, r, rfl, fits, divided⟩
  rw [ite_self]
  by_cases read : 0 < (readC c r).ret ∧ (readC c r).c ≠ 0
  · obtain ⟨b, next, nonzero⟩ := (read_iff c r).mp read
    rw [jsonStep_read next nonzero]
    exact ⟨_, _, _, _, rfl, feed_divided fits divided nonzero⟩
  · rw [jsonStep_loop, if_neg read]
    exact ⟨_, _, _, _, rfl, fits, divided⟩

theorem jsonLoop_open (h : (doWhile jsonStep (v.loop name value ret c r)).Returns t)
    (fits : v.Fits nl vl) (opened : v.Open nl n) :
    ∃ w ret' c' r', t = JsonView.loop w name value ret' c' r' ∧ w.Fits nl vl ∧
      (w.Divided ∨ ∃ k, Keyless v.scan r k ∧ w.Open nl (n + k)) := by
  refine (doWhile_induction (motive := fun s t => (doWhile jsonStep s).Returns t ∧
    ∀ v n ret c r, s = JsonView.loop v name value ret c r → v.Fits nl vl → v.Open nl n →
    ∃ w ret' c' r', t = JsonView.loop w name value ret' c' r' ∧ w.Fits nl vl ∧
      (w.Divided ∨ ∃ k, Keyless v.scan r k ∧ w.Open nl (n + k))) ?_ ?_ h).2 v n ret c r rfl fits opened
  · intro s stop
    refine ⟨(doWhile_exit stop).mpr rfl, ?_⟩
    rintro v n ret c r rfl fits opened
    by_cases read : 0 < (readC c r).ret ∧ (readC c r).c ≠ 0
    · obtain ⟨b, next, nonzero⟩ := (read_iff c r).mp read
      rw [jsonStep_read next nonzero] at stop ⊢
      refine ⟨v.feed b, _, _, _, rfl, ?_⟩
      obtain ⟨fits', divided | ⟨s, sym, move, lex, plain, -, opened'⟩⟩ :=
        feed_fits fits nonzero opened
      · exact ⟨fits', .inl divided⟩
      · refine ⟨fits', .inr ⟨_, .last next nonzero lex plain ?_, opened'⟩⟩
        rintro rfl
        rw [lex] at stop
        simp [JsonMove.again, fits'.room] at stop
    · rw [jsonStep_loop, if_neg read]
      refine ⟨v, _, _, _, rfl, fits, .inr ⟨0, .past fun b next => ?_, opened⟩⟩
      by_contra nonzero
      exact read ((read_iff c r).mpr ⟨b, next, nonzero⟩)
  · rintro s t again ⟨loop, ih⟩
    refine ⟨(doWhile_next again).mpr loop, ?_⟩
    rintro v n ret c r rfl fits opened
    by_cases read : 0 < (readC c r).ret ∧ (readC c r).c ≠ 0
    · obtain ⟨b, next, nonzero⟩ := (read_iff c r).mp read
      rw [jsonStep_read next nonzero] at again ih loop
      have move : (v.scan.lex b).2.2 = .next := by
        cases other : (v.scan.lex b).2.2 with
        | next => rfl
        | stop => simp [other, JsonMove.again] at again
        | push => simp [other, JsonMove.again] at again
      rw [move] at ih loop
      obtain ⟨fits', divided | ⟨s, sym, m, lex, plain, scan, opened'⟩⟩ :=
        feed_fits fits nonzero opened
      · obtain ⟨w, ret', c', r', equal, last, divided'⟩ := jsonLoop_divided loop fits' divided
        exact ⟨w, ret', c', r', equal, last, .inl divided'⟩
      · obtain ⟨w, ret', c', r', equal, last, outcome⟩ := ih _ _ _ _ _ rfl fits' opened'
        refine ⟨w, ret', c', r', equal, last, outcome.imp_right ?_⟩
        rintro ⟨k, rest, opened''⟩
        rw [lex] at move
        obtain rfl : m = .next := move
        rw [scan] at rest
        refine ⟨_, .next next nonzero lex plain rest, ?_⟩
        rwa [← Nat.add_assoc]
    · rw [jsonStep_loop, if_neg read] at again
      cases again

theorem Keyless.loop {s : JsonScan} {k : Nat} (h : Keyless s r k) (scan : v.scan = s)
    (fits : v.Fits nl vl) (opened : v.Open nl n) : ∃ w ret' c' r',
      (doWhile jsonStep (v.loop name value ret c r)).Returns (JsonView.loop w name value ret' c' r') ∧
        w.Fits nl vl ∧ w.Open nl (n + k) := by
  induction h generalizing v n ret c with
  | @past s r none =>
      have past : ¬ (0 < (readC c r).ret ∧ (readC c r).c ≠ 0) := by
        intro read
        obtain ⟨b, next, nonzero⟩ := (read_iff c r).mp read
        exact nonzero (none b next)
      exact ⟨_, _, _, _, jsonLoop_over past, fits, opened⟩
  | @next s s' r b sym k char nonzero lex plain rest ih =>
      rw [← scan] at lex
      obtain ⟨fits', opened'⟩ := feed_open fits opened nonzero lex plain
      have scan' : (v.feed b).scan = s' := by
        rw [JsonView.feed, lex]
        rfl
      have rest : ∃ w ret' c' r', (doWhile jsonStep ((v.feed b).loop name value 1 b
          (readC 0 r).reader)).Returns (JsonView.loop w name value ret' c' r') ∧ w.Fits nl vl ∧
            w.Open nl (n + sym.count + k) := ih scan' fits' opened'
      obtain ⟨w, ret', c', r', loop, last, opened''⟩ := rest
      have step : jsonStep (v.loop name value ret c r) =
          ((v.feed b).loop name value 1 b (readC 0 r).reader, true) := by
        rw [jsonStep_read char nonzero, lex]
        simp [JsonMove.again, JsonMove.reader, fits'.room]
      refine ⟨w, ret', c', r', (doWhile_next (by rw [step])).mpr ?_, last, ?_⟩
      · rwa [step]
      · rwa [← Nat.add_assoc]
  | @last s s' r b sym move char nonzero lex plain leaves =>
      rw [← scan] at lex
      obtain ⟨fits', opened'⟩ := feed_open fits opened nonzero lex plain
      have step : jsonStep (v.loop name value ret c r) = _ := jsonStep_read char nonzero
      have stop : (v.scan.lex b).2.2.again = false := by
        rw [lex]
        cases move with
        | next => exact absurd rfl leaves
        | stop => rfl
        | push => rfl
      refine ⟨v.feed b, _, _, _, (doWhile_exit ?_).mpr (by rw [step]), fits', opened'⟩
      rw [step, stop, Bool.false_and]

def jsonStart (name : Mem) (nl : UInt8) (value : Mem) (vl : UInt8) (r : Reader) (j : JsonState) :
    JsonLoop :=
  (JsonView.start nl vl j).loop name value 0 (r.frame 0) r.enter

structure Outside (nl vl : UInt8) (name value name' value' : Mem) : Prop where
  name : ∀ k, nl.toNat ≤ k → name' k = name k
  value : ∀ k, vl.toNat ≤ k → value' k = value k

theorem JsonView.Fits.value_lt (fits : v.Fits nl vl) : v.value.length < vl.toNat := by
  have room := UInt8.lt_iff_toNat_lt.mp fits.room
  have value := fits.value
  simp only [UInt8.toNat_zero] at room
  omega

theorem JsonView.Fits.outside (fits : v.Fits nl vl) :
    Outside nl vl name value (v.loop name value ret c r).name (v.loop name value ret c r).value := by
  refine ⟨fun k beyond => Mem.put_of_le _ ?_, fun k beyond => Mem.put_of_le _ ?_⟩
  · exact fits.name.le.trans beyond
  · exact fits.value_lt.le.trans beyond

/-- Every store of the loop is inside, whether or not it ends. -/
theorem jsonLoop_outside {s : JsonLoop}
    (reach : Comp.Reaches (fun t => pure (jsonStep t)) s t) :
    ∀ v n ret c r, s = JsonView.loop v name value ret c r → v.Fits nl vl →
      (v.Open nl n ∨ v.Divided) → Outside nl vl name value t.name t.value := by
  induction reach with
  | refl s =>
      rintro v n ret c r rfl fits -
      exact fits.outside
  | @next s t p round again rest ih =>
      rintro v n ret c r rfl fits start
      obtain rfl := returns_pure.mp round
      by_cases read : 0 < (readC c r).ret ∧ (readC c r).c ≠ 0
      · obtain ⟨b, next, nonzero⟩ := (read_iff c r).mp read
        rw [jsonStep_read next nonzero] at ih
        cases start with
        | inl opened =>
            obtain ⟨fits', divided | ⟨s, sym, m, -, -, -, opened'⟩⟩ := feed_fits fits nonzero opened
            · exact ih _ n _ _ _ rfl fits' (.inr divided)
            · exact ih _ _ _ _ _ rfl fits' (.inl opened')
        | inr divided =>
            obtain ⟨fits', divided'⟩ := feed_divided fits divided nonzero
            exact ih _ n _ _ _ rfl fits' (.inr divided')
      · rw [jsonStep_loop, if_neg read] at again
        cases again

/-- The call stores inside the buffers and leaves a C string in each. -/
structure JsonInside (nl vl : UInt8) (r : Reader) (j : JsonState) : Prop where
  rounds : ∀ name value t,
    Comp.Reaches (fun t => pure (jsonStep t)) (jsonStart name nl value vl r j) t →
      Outside nl vl name value t.name t.value
  returns : ∀ name value p, (parseJSONParam name nl value vl r j).Returns p →
    Outside nl vl name value p.name p.value ∧
      (∃ k < nl.toNat, p.name k = 0) ∧ ∃ k < vl.toNat, p.value k = 0

theorem finishJson_keyed (keyed : ¬ (v.divider = 0 ∧ v.name.length ≠ 0)) :
    finishJson nl vl (v.loop name value ret c r) =
      ⟨if v.nameLen = 0 then 1 else 0, name.put (v.name ++ [0]), value.put (v.value ++ [0]), r,
        v.scan.json⟩ := by
  rw [← Mem.put_set, ← Mem.put_set]
  exact if_neg keyed

theorem finishJson_element (keyless : v.divider = 0) (stored : v.name ≠ [])
    (nonzero : ∀ b ∈ v.name, b ≠ 0) : finishJson nl vl (v.loop name value ret c r) =
      ⟨1, snprintfDecimal (name.put (v.name ++ [0])) nl.toNat v.scan.json.counter.toNat,
        (value.put (v.value ++ [0])).strncpy (v.name.take vl.toNat) vl.toNat, r,
        { v.scan.json with counter := v.scan.json.counter + 1 }⟩ := by
  rw [← Mem.cstr_put name nonzero, ← Mem.put_set, ← Mem.put_set]
  exact if_pos ⟨keyless, fun empty => stored (List.eq_nil_of_length_eq_zero empty)⟩

theorem snprintfDecimal_inside (named : 0 < nl) (m : Mem) (k : Nat) :
    (∀ i, nl.toNat ≤ i → snprintfDecimal m nl.toNat k i = m i) ∧
      ∃ i < nl.toNat, snprintfDecimal m nl.toNat k i = 0 := by
  have positive : 0 < nl.toNat := UInt8.lt_iff_toNat_lt.mp named
  rw [snprintfDecimal, if_neg positive.ne']
  constructor
  · intro i beyond
    rw [vsnprintf, if_neg (by omega), if_neg (by omega)]
  · refine ⟨min (nl.toNat - 1) (decimal k).length, by omega, ?_⟩
    rw [vsnprintf, if_neg (by omega), if_pos rfl]

theorem put_terminated (m : Mem) (text : List UInt8) : m.put (text ++ [0]) text.length = 0 := by
  rw [Mem.put_of_lt m (by simp)]
  simp

theorem finish_keyed_inside (fits : v.Fits nl vl) (keyed : ¬ (v.divider = 0 ∧ v.name.length ≠ 0))
    {p : JsonParam} (h : p = finishJson nl vl (v.loop name value ret c r)) :
    Outside nl vl name value p.name p.value ∧
      (∃ k < nl.toNat, p.name k = 0) ∧ ∃ k < vl.toNat, p.value k = 0 := by
  rw [finishJson_keyed keyed] at h
  subst h
  refine ⟨⟨fun k beyond => Mem.put_of_le _ ?_, fun k beyond => Mem.put_of_le _ ?_⟩,
    ⟨_, fits.name, put_terminated _ _⟩, _, fits.value_lt, put_terminated _ _⟩
  · rw [List.length_append]
    exact Nat.le_trans fits.name beyond
  · rw [List.length_append]
    exact Nat.le_trans fits.value_lt beyond

theorem finish_element_inside (fits : v.Fits nl vl) (opened : v.Open nl n) (stored : v.name ≠ [])
    (short : v.name.length < vl.toNat) {p : JsonParam}
    (h : p = finishJson nl vl (v.loop name value ret c r)) :
    Outside nl vl name value p.name p.value ∧
      (∃ k < nl.toNat, p.name k = 0) ∧ ∃ k < vl.toNat, p.value k = 0 := by
  rw [finishJson_element opened.divider stored fits.nonzero] at h
  subst h
  have named : 0 < nl := UInt8.lt_iff_toNat_lt.mpr (Nat.zero_lt_of_lt fits.name)
  obtain ⟨behind, terminated⟩ :=
    snprintfDecimal_inside named (name.put (v.name ++ [0])) v.scan.json.counter.toNat
  refine ⟨⟨fun k beyond => ?_, fun k beyond => ?_⟩, terminated, v.name.length, short, ?_⟩
  · dsimp only
    rw [behind k beyond]
    apply Mem.put_of_le
    rw [List.length_append]
    exact Nat.le_trans fits.name beyond
  · dsimp only
    rw [Mem.strncpy, if_neg (Nat.not_lt.mpr beyond)]
    apply Mem.put_of_le
    rw [List.length_append]
    exact Nat.le_trans fits.value_lt beyond
  · dsimp only
    rw [Mem.strncpy, if_pos short, List.getD_eq_getElem?_getD, List.getElem?_eq_none,
      Option.getD_none]
    rw [List.length_take]
    exact Nat.min_le_right _ _

theorem finish_element_full (opened : v.Open nl n) (fits : v.Fits nl vl) (valued : 0 < vl)
    (full : vl.toNat ≤ v.name.length) :
    ¬ ∃ k < vl.toNat, (finishJson nl vl (v.loop name value ret c r)).value k = 0 := by
  rintro ⟨k, inside, zero⟩
  have stored : v.name ≠ [] := by
    rintro empty
    rw [empty] at full
    exact Nat.not_le.mpr (UInt8.lt_iff_toNat_lt.mp valued) full
  rw [finishJson_element opened.divider stored fits.nonzero] at zero
  dsimp only at zero
  have here : k < v.name.length := inside.trans_le full
  rw [Mem.strncpy, if_pos inside, List.getD_eq_getElem?_getD, List.getElem?_take_of_lt inside,
    List.getElem?_eq_getElem here, Option.getD_some] at zero
  exact fits.nonzero _ (List.getElem_mem here) zero

theorem parseJSONParam_inside_iff (named : 0 < nl) (valued : 0 < vl) (r : Reader) (j : JsonState) :
    JsonInside nl vl r j ↔ ∀ n, Keyless ⟨0, 0, j⟩ r n → n < vl.toNat ∨ nl ≤ vl := by
  have fits := start_fits named valued j
  have opened : (JsonView.start nl vl j).Open nl 0 := start_open named j
  have same : r.Same r.enter := ⟨rfl, rfl, rfl⟩
  constructor
  · intro inside n keyless
    by_contra long
    obtain ⟨many, smaller⟩ := not_or.mp long
    rw [UInt8.le_iff_toNat_le] at smaller
    have reads : ∃ w ret c u, (doWhile jsonStep (jsonStart (fun _ => 0) nl (fun _ => 0) vl r j)).Returns
        (JsonView.loop w (fun _ => 0) (fun _ => 0) ret c u) ∧ w.Fits nl vl ∧ w.Open nl (0 + n) :=
      (keyless.same same).loop rfl fits opened
    obtain ⟨w, ret, c, u, loop, fits', opened'⟩ := reads
    have call := loop.bind (f := fun t => pure (finishJson nl vl t)) (returns_pure.mpr rfl)
    have length := opened'.length
    exact finish_element_full opened' fits' valued (by omega) (inside.returns _ _ _ call).2.2
  · intro short
    refine ⟨fun name value t reach => ?_, fun name value p call => ?_⟩
    · exact jsonLoop_outside reach _ 0 _ _ _ rfl fits (.inl opened)
    · obtain ⟨t, loop, call⟩ := returns_bind.mp call
      have start : (doWhile jsonStep (jsonStart name nl value vl r j)).Returns t := loop
      obtain ⟨w, ret, c, u, rfl, fits', outcome⟩ := jsonLoop_open start fits opened
      rw [returns_pure] at call
      by_cases keyed : w.divider = 0 ∧ w.name.length ≠ 0
      · cases outcome with
        | inl divided => exact absurd keyed.1 divided.divider
        | inr element =>
            obtain ⟨k, keyless, opened'⟩ := element
            have length := opened'.length
            have less := short k (keyless.same ⟨rfl, rfl, rfl⟩)
            rw [UInt8.le_iff_toNat_le] at less
            have positive := UInt8.lt_iff_toNat_lt.mp named
            simp only [UInt8.toNat_zero] at positive
            exact finish_element_inside fits' opened' (List.ne_nil_of_length_pos
              (Nat.pos_of_ne_zero keyed.2)) (by omega) call
      · exact finish_keyed_inside fits' keyed call

def wordReader : Reader := ⟨sends (ascii "lamp switched on"), .zero, some 10, fun _ _ => 0⟩

theorem parseJSONParam_inside_word : JsonInside 20 20 wordReader ⟨0, 0, 0, 0⟩ ↔
    ∀ n, Keyless ⟨0, 0, ⟨0, 0, 0, 0⟩⟩ wordReader n → n < (20 : UInt8).toNat ∨ (20 : UInt8) ≤ 20 :=
  parseJSONParam_inside_iff (by decide) (by decide) wordReader ⟨0, 0, 0, 0⟩

theorem parseJSONParam_unterminated : ¬ JsonInside 20 5 wordReader ⟨0, 0, 0, 0⟩ := by
  intro inside
  obtain ⟨p, call, cells⟩ := returns_of_run (n := 20)
    (x := parseJSONParam (fun _ => 0) 20 (fun _ => 0) 5 wordReader ⟨0, 0, 0, 0⟩)
    (f := fun p => p.value.bytes 5) (b := ascii "lamps") (by decide +kernel)
  obtain ⟨k, less, zero⟩ := (inside.returns _ _ p call).2.2
  have member : p.value k ∈ p.value.bytes 5 := List.mem_map_of_mem (List.mem_range.mpr less)
  rw [zero, cells] at member
  exact absurd member (by decide)

end AttoHTTP
