import AttoHTTP.Proof.Lasting

/-!
# The buffers of the request parsers

Each of the loops keeps a cell for the terminator in its own way. A loop is followed round by round
here, since a cell that is stored with what it held already shows in no result.
-/

namespace AttoHTTP
open Library Comp

def SameOutside (size : Nat) (m m' : Mem) : Prop := ∀ i, size ≤ i → m i = m' i

theorem SameOutside.set {size : Nat} {m m' : Mem} (same : SameOutside size m m') {k : Nat}
    (inside : k < size) (b : UInt8) : SameOutside size (m.set k b) m' := by
  intro i beyond
  rw [Mem.set_of_ne m b (by omega)]
  exact same i beyond

/-! ## The loops that fill a buffer -/

/-- A loop that fills a buffer of `size` cells. A round reads and stores the cell at `ptr`, and the
terminator goes to the cell that the last round has left there. -/
structure FillsInside (stop : UInt8 → Bool) (more : Int8 → Bool) (size : Nat) (buffer : Mem)
    (r : Reader) (f : Fill) : Prop where
  run : (fill stop more (size - 1) buffer r).Returns f
  rounds : ∀ u, Comp.Reaches (fun f => pure (fillStep stop more (size - 1) f)) ⟨1, buffer, 0, r⟩ u →
    u.ptr < size
  last : f.ptr < size
  outside : SameOutside size (f.buffer.set f.ptr 0) buffer
  string : ((f.buffer.set f.ptr 0).cstr size).length < size

theorem fillStep_ptr {stop : UInt8 → Bool} {more : Int8 → Bool} {room : Nat} {f : Fill}
    (inside : f.ptr < room) :
    if (fillStep stop more room f).2 then
      (fillStep stop more room f).1.ptr = f.ptr + 1 ∧ f.ptr + 1 < room
    else (fillStep stop more room f).1.ptr ≤ room := by
  unfold fillStep
  dsimp only
  by_cases stops : stop (readC (f.buffer f.ptr) f.reader).c = true
  · rw [if_pos stops, if_neg (by simp)]
    exact inside.le
  · rw [if_neg stops]
    split
    · rename_i again
      rw [Bool.and_eq_true, decide_eq_true_eq] at again
      exact ⟨rfl, again.2⟩
    · exact inside

theorem fillStep_buffer (stop : UInt8 → Bool) (more : Int8 → Bool) (room : Nat) (f : Fill) :
    (fillStep stop more room f).1.buffer =
      f.buffer.set f.ptr (readC (f.buffer f.ptr) f.reader).c := by
  unfold fillStep
  dsimp only
  split <;> rfl

theorem cstr_length_lt {m : Mem} {size k : Nat} (inside : k < size) (zero : m k = 0) :
    (m.cstr size).length < size := by
  induction size generalizing m k with
  | zero => omega
  | succ size ih =>
      rw [Mem.cstr]
      split
      · exact Nat.succ_pos size
      · rename_i nonzero
        cases k with
        | zero => exact absurd zero nonzero
        | succ k =>
            have rest := @ih (m.skip 1) k (by omega) (by rw [Mem.skip_apply, Nat.add_comm]; exact zero)
            rw [List.length_cons]
            omega

theorem fill_inside (stop : UInt8 → Bool) (more : Int8 → Bool) {size : Nat} (room : 2 ≤ size)
    (buffer : Mem) (r : Reader) : ∃ f, FillsInside stop more size buffer r f := by
  have round (u : Fill) (inv : u.ptr < size - 1 ∧ SameOutside size u.buffer buffer) :
      if (fillStep stop more (size - 1) u).2 then
        ((fillStep stop more (size - 1) u).1.ptr < size - 1 ∧
          SameOutside size (fillStep stop more (size - 1) u).1.buffer buffer) ∧
            size - (fillStep stop more (size - 1) u).1.ptr < size - u.ptr
      else (fillStep stop more (size - 1) u).1.ptr ≤ size - 1 ∧
        SameOutside size (fillStep stop more (size - 1) u).1.buffer buffer := by
    have ptr := @fillStep_ptr stop more (size - 1) u inv.1
    have outside : SameOutside size (fillStep stop more (size - 1) u).1.buffer buffer := by
      rw [fillStep_buffer]
      exact inv.2.set (by omega) _
    split at ptr
    · rename_i again
      rw [if_pos again]
      exact ⟨⟨by omega, outside⟩, by omega⟩
    · rename_i stops
      rw [if_neg stops]
      exact ⟨ptr, outside⟩
  have start : (⟨1, buffer, 0, r⟩ : Fill).ptr < size - 1 ∧
      SameOutside size (⟨1, buffer, 0, r⟩ : Fill).buffer buffer :=
    ⟨show 0 < size - 1 by omega, fun _ _ => rfl⟩
  obtain ⟨f, run, ⟨last, outside⟩, confined⟩ := doWhile_confined (fun u : Fill => size - u.ptr)
    (fun u => u.ptr < size - 1 ∧ SameOutside size u.buffer buffer)
    (fun u => u.ptr ≤ size - 1 ∧ SameOutside size u.buffer buffer) round _ start
  have inside : f.ptr < size := by omega
  refine ⟨f, run, fun u reach => ?_, inside, outside.set inside 0,
    cstr_length_lt inside (Mem.set_self ..)⟩
  have before := (confined u reach).1
  omega

/-! ## The method -/

def methodFound (buffer : Mem) (f : Fill) (q : Request) : Parsed :=
  match findMethod buffer with
  | some m => ⟨f.ret, f.reader, { q with method := m }⟩
  | none => ⟨f.ret, f.reader, { q with returnCode := statusUnsupported }⟩

theorem cstr_inside {a b : Mem} {size k n : Nat} (inside : k < size) (zero : a k = 0)
    (agree : ∀ i, i < size → b i = a i) : b.cstr n = a.cstr n := by
  refine Mem.cstr_congr k (fun i le => agree i (by omega)) ?_
  rw [agree k inside]
  exact zero

def MethodInside (r : Reader) (q : Request) : Prop :=
  ∀ t, (parseSpace r.enter).Returns t →
    if 0 < t.ret then
      ∃ f, FillsInside isBlank (fun ret => 0 < ret) tokenSize r.frame t.reader f ∧
        ∀ buffer : Mem, (∀ i, i < tokenSize → buffer i = f.buffer.set f.ptr 0 i) →
          (parseMethod r q).Returns (methodFound buffer f q)
    else (parseMethod r q).Returns ⟨t.ret, t.reader, { q with returnCode := statusInternalError }⟩

theorem parseMethod_inside (r : Reader) (q : Request) : MethodInside r q := by
  intro t space
  by_cases found : 0 < t.ret
  · rw [if_pos found]
    obtain ⟨f, inside⟩ := @fill_inside isBlank (fun ret => 0 < ret) tokenSize (by decide) r.frame t.reader
    refine ⟨f, inside, fun buffer agree => ?_⟩
    have same : findMethod buffer = findMethod (f.buffer.set f.ptr 0) := by
      simp only [findMethod, strncmpEq, cstr_inside inside.last (Mem.set_self f.buffer f.ptr 0) agree]
    rw [parseMethod, space.bind_iff, if_pos found, inside.run.bind_iff, methodFound, same]
    dsimp only
    cases findMethod (f.buffer.set f.ptr 0) <;> exact returns_pure.mpr rfl
  · rw [if_neg found, parseMethod, space.bind_iff, if_neg found]
    exact returns_pure.mpr rfl

/-! ## The version -/

def VersionInside (r : Reader) (q : Request) : Prop :=
  ∀ t, (parseSpace r.enter).Returns t →
    if 0 < t.ret then
      ∃ f, FillsInside isSpace (fun ret => ret ≠ 0) tokenSize r.frame t.reader f ∧
        ∀ buffer : Mem, (∀ i, i < tokenSize → buffer i = f.buffer.set f.ptr 0 i) →
          ∀ p, (parseVersion r q).Returns p ↔
            (parseEOL (pushC (f.buffer f.ptr) f.reader)
              { q with version := findVersion buffer f.ptr }).Returns p
    else ∀ p, (parseVersion r q).Returns p ↔ (parseEOL t.reader q).Returns p

theorem parseVersion_inside (r : Reader) (q : Request) : VersionInside r q := by
  intro t space
  by_cases found : 0 < t.ret
  · rw [if_pos found]
    obtain ⟨f, inside⟩ := @fill_inside isSpace (fun ret => ret ≠ 0) tokenSize (by decide) r.frame t.reader
    refine ⟨f, inside, fun buffer agree p => ?_⟩
    have same : findVersion buffer f.ptr = findVersion (f.buffer.set f.ptr 0) f.ptr := by
      unfold findVersion strncmpEq
      rw [cstr_inside inside.last (Mem.set_self f.buffer f.ptr 0) agree]
    rw [same, parseVersion, space.bind_iff, if_pos found, inside.run.bind_iff]
  · rw [if_neg found]
    intro p
    rw [parseVersion, space.bind_iff, if_neg found]

/-! ## The URL -/

def Request.ParamsInside (cfg : Config) (q : Request) : Prop :=
  ∀ k, q.urlParams = .url k → q.urlParamsStart = k ∧ k < cfg.urlBufferSize

structure Request.ReadsTarget (cfg : Config) (q q' : Request) : Prop where
  outside : SameOutside cfg.urlBufferSize q'.url q.url
  params : q.ParamsInside cfg → q'.ParamsInside cfg

theorem parseURLStep_inside {cfg : Config} {q : Request} {p : Parsed}
    (reads : q.ReadsTarget cfg p.request) (inside : p.request.urlLen < cfg.urlBufferSize - 1) :
    q.ReadsTarget cfg (parseURLStep cfg p).1.request ∧
      if (parseURLStep cfg p).2 then
        (parseURLStep cfg p).1.request.urlLen = p.request.urlLen + 1 ∧
          p.request.urlLen + 1 < cfg.urlBufferSize - 1
      else (parseURLStep cfg p).1.request.urlLen < cfg.urlBufferSize := by
  have cell : p.request.urlLen < cfg.urlBufferSize := by omega
  cases blank : isBlank (readC (p.request.url p.request.urlLen) p.reader).c with
  | true =>
      simp only [parseURLStep, blank, if_true, Bool.false_eq_true, if_false]
      exact ⟨⟨reads.outside.set cell _, reads.params⟩, cell⟩
  | false =>
      by_cases query : (readC (p.request.url p.request.urlLen) p.reader).c = 63
      · simp only [parseURLStep, blank, Bool.false_eq_true, if_false, if_pos query]
        refine ⟨⟨(reads.outside.set cell _).set cell _, fun _ k same => ?_⟩, ?_⟩
        · cases same
          exact ⟨rfl, by omega⟩
        · split
          · rename_i again
            rw [Bool.and_eq_true, decide_eq_true_eq, decide_eq_true_eq] at again
            exact ⟨trivial, again.2⟩
          · omega
      · simp only [parseURLStep, blank, Bool.false_eq_true, if_false, if_neg query]
        refine ⟨⟨reads.outside.set cell _, reads.params⟩, ?_⟩
        split
        · rename_i again
          rw [Bool.and_eq_true, decide_eq_true_eq, decide_eq_true_eq] at again
          exact ⟨trivial, again.2⟩
        · omega

/-- The target is read into `_attoHTTP_url`: the loop ends inside it whatever is delivered, and so
does what is left when the rest of the target, should there be one, has been dropped. -/
def URLInside (cfg : Config) (r : Reader) (q : Request) : Prop :=
  ∀ t, (parseSpace r).Returns t →
    if 0 < t.ret then
      (∀ p, Comp.Reaches (fun p => pure (parseURLStep cfg p)) ⟨t.ret, t.reader, { q with urlLen := 0 }⟩ p →
        p.request.urlLen < cfg.urlBufferSize) ∧
      (∃ p, (doWhile (parseURLStep cfg) ⟨t.ret, t.reader, { q with urlLen := 0 }⟩).Returns p ∧
        p.request.urlLen < cfg.urlBufferSize ∧ q.ReadsTarget cfg p.request) ∧
      ∀ p, (parseURL cfg r q).Returns p → p.request.urlLen < cfg.urlBufferSize ∧
        p.request.url p.request.urlLen = 0 ∧ q.ReadsTarget cfg p.request
    else (parseURL cfg r q).Returns ⟨t.ret, t.reader, q⟩

theorem parseURL_inside (cfg : Config) (r : Reader) (q : Request) : URLInside cfg r q := by
  intro t space
  by_cases found : 0 < t.ret
  · rw [if_pos found]
    have size := cfg.url_ge
    have round (p : Parsed) (inv : p.request.urlLen < cfg.urlBufferSize - 1 ∧
        q.ReadsTarget cfg p.request) : if (parseURLStep cfg p).2 then
          ((parseURLStep cfg p).1.request.urlLen < cfg.urlBufferSize - 1 ∧
            q.ReadsTarget cfg (parseURLStep cfg p).1.request) ∧
            cfg.urlBufferSize - (parseURLStep cfg p).1.request.urlLen <
              cfg.urlBufferSize - p.request.urlLen
        else (parseURLStep cfg p).1.request.urlLen < cfg.urlBufferSize ∧
          q.ReadsTarget cfg (parseURLStep cfg p).1.request := by
      obtain ⟨reads, len⟩ := parseURLStep_inside inv.2 inv.1
      split at len
      · rename_i again
        rw [if_pos again]
        exact ⟨⟨by omega, reads⟩, by omega⟩
      · rename_i stops
        rw [if_neg stops]
        exact ⟨len, reads⟩
    have start : (⟨t.ret, t.reader, { q with urlLen := 0 }⟩ : Parsed).request.urlLen <
          cfg.urlBufferSize - 1 ∧
        q.ReadsTarget cfg (⟨t.ret, t.reader, { q with urlLen := 0 }⟩ : Parsed).request :=
      ⟨show 0 < cfg.urlBufferSize - 1 by omega, fun _ _ => rfl, fun params => params⟩
    obtain ⟨u, loop, ⟨inside, reads⟩, confined⟩ := doWhile_confined
      (fun p : Parsed => cfg.urlBufferSize - p.request.urlLen)
      (fun p => p.request.urlLen < cfg.urlBufferSize - 1 ∧ q.ReadsTarget cfg p.request)
      (fun p => p.request.urlLen < cfg.urlBufferSize ∧ q.ReadsTarget cfg p.request) round _ start
    refine ⟨fun p reach => ?_, ⟨u, loop, inside, reads⟩, fun p run => ?_⟩
    · have before := (confined p reach).1
      omega
    · rw [parseURL, space.bind_iff, if_pos found, loop.bind_iff] at run
      obtain ⟨g, -, run⟩ := returns_bind.mp run
      rw [returns_pure] at run
      subst run
      exact ⟨inside, Mem.set_self .., reads.outside.set inside 0, reads.params⟩
  · rw [if_neg found, parseURL, space.bind_iff, if_neg found]
    exact returns_pure.mpr rfl

/-! ## The header -/

/-- `_attoHTTPParseHeader` with the sizes that are its arguments. -/
def parseHeaderOf (namesize valuesize : Nat) (h : HeaderLoop) : Comp HeaderLoop := do
  let f ← fill (fun c => c == 58) (fun ret => 0 < ret) (namesize - 1) h.name h.reader
  let name := f.buffer.set f.ptr 0
  let t ← parseSpace f.reader
  let f ← fill (fun c => c == 13 || c == 10) (fun ret => 0 < ret) (valuesize - 1) h.value t.reader
  let reader := if f.ptr < valuesize - 1 then pushC (f.buffer f.ptr) f.reader else f.reader
  let value := f.buffer.set f.ptr 0
  let p ← parseEOL reader h.request
  pure ⟨p.ret, name, value, p.reader, p.request⟩

theorem parseHeader_eq (cfg : Config) (h : HeaderLoop) :
    parseHeader cfg h = parseHeaderOf cfg.headerNameSize cfg.headerValueSize h := rfl

def HeaderInside (namesize valuesize : Nat) (h : HeaderLoop) : Prop :=
  ∃ f, FillsInside (fun c => c == 58) (fun ret => 0 < ret) namesize h.name h.reader f ∧
    ∀ t, (parseSpace f.reader).Returns t →
      ∃ g, FillsInside (fun c => c == 13 || c == 10) (fun ret => 0 < ret) valuesize h.value
          t.reader g ∧
        ∀ h', (parseHeaderOf namesize valuesize h).Returns h' →
          h'.name = f.buffer.set f.ptr 0 ∧ h'.value = g.buffer.set g.ptr 0

theorem parseHeader_inside {namesize valuesize : Nat} (nameRoom : 2 ≤ namesize)
    (valueRoom : 2 ≤ valuesize) (h : HeaderLoop) : HeaderInside namesize valuesize h := by
  obtain ⟨f, name⟩ := fill_inside (fun c => c == 58) (fun ret => 0 < ret) nameRoom h.name h.reader
  refine ⟨f, name, fun t space => ?_⟩
  obtain ⟨g, value⟩ := fill_inside (fun c => c == 13 || c == 10) (fun ret => 0 < ret) valueRoom
    h.value t.reader
  refine ⟨g, value, fun h' run => ?_⟩
  rw [parseHeaderOf, name.run.bind_iff, space.bind_iff, value.run.bind_iff] at run
  obtain ⟨p, -, run⟩ := returns_bind.mp run
  rw [returns_pure] at run
  rw [run]
  exact ⟨rfl, rfl⟩

/-! ## The four parsers -/

theorem recordHeader_params (cfg : Config) (check : CheckAuth) (name value : Mem) (q : Request) :
    (recordHeader cfg check name value q).urlParams = q.urlParams ∧
      (recordHeader cfg check name value q).urlParamsStart = q.urlParamsStart := by
  simp only [recordHeader, authorize, checkAuth]
  repeat' split
  all_goals exact ⟨rfl, rfl⟩

theorem paramsInside_keeps (cfg : Config) (check : CheckAuth) :
    RequestInvariant cfg check (Request.ParamsInside cfg) where
  method _ _ inside := inside
  version _ _ inside := inside
  done _ inside := inside
  unsupported _ inside := inside
  failed _ inside := inside
  url r q p run inside := by
    obtain ⟨t, space, -⟩ := returns_bind.mp run
    have target := parseURL_inside cfg r q t space
    split at target
    · exact (target.2.2 p run).2.2.params inside
    · rw [run.unique target]
      exact inside
  header q name value inside := by
    obtain ⟨pointer, start⟩ := recordHeader_params cfg check name value q
    intro k same
    rw [start]
    exact inside k (pointer.symm.trans same)

/-- The request parsers stay inside their buffers, and every request leaves a pointer to its
parameters that lies inside the URL. -/
theorem parsers_inside (cfg : Config) {namesize valuesize : Nat} (nameRoom : 2 ≤ namesize)
    (valueRoom : 2 ≤ valuesize) (r : Reader) (q : Request) (h : HeaderLoop) :
    MethodInside r q ∧ URLInside cfg r q ∧ VersionInside r q ∧ HeaderInside namesize valuesize h ∧
      parseHeader cfg h = parseHeaderOf cfg.headerNameSize cfg.headerValueSize h ∧
      ∀ conn s p, (parseRequest cfg conn.checkAuth (State.accept cfg conn s).reader
        (State.accept cfg conn s).request).Returns p → p.request.ParamsInside cfg := by
  refine ⟨parseMethod_inside r q, parseURL_inside cfg r q, parseVersion_inside r q,
    parseHeader_inside nameRoom valueRoom h, parseHeader_eq cfg h, fun conn s p run => ?_⟩
  refine (paramsInside_keeps cfg conn.checkAuth).parseRequest run ?_
  intro k same
  cases same

def longLine : Reader :=
  ⟨(ascii "Accept-Language: text/html\r\n\r\n").map .byte, .zero, none, fun _ _ => 7⟩

def longLoop : HeaderLoop := ⟨1, fun _ => 33, fun _ => 63, longLine, State.boot.request⟩

theorem parsers_inside_long :
    (∃ t, (parseSpace longLine.enter).Returns t ∧ 0 < t.ret) ∧
      MethodInside longLine State.boot.request ∧
      URLInside (.default .none) longLine State.boot.request ∧
      VersionInside longLine State.boot.request ∧ HeaderInside 8 6 longLoop := by
  have name : 2 ≤ 8 := by decide
  have value : 2 ≤ 6 := by decide
  obtain ⟨method, url, version, header, -⟩ :=
    parsers_inside (.default .none) name value longLine State.boot.request longLoop
  obtain ⟨t, space, found⟩ := returns_of_run (n := 2) (f := fun t => decide (0 < t.ret))
    (b := true) (x := parseSpace longLine.enter) (by decide)
  exact ⟨⟨t, space, of_decide_eq_true found⟩, method, url, version, header⟩

end AttoHTTP
