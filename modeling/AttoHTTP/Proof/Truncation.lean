import Mathlib.Data.List.TakeWhile
import AttoHTTP.Proof.Delivery
import AttoHTTP.Proof.RequestInvariant
import AttoHTTP.Proof.Termination

/-!
# The end of the connection

What the parsers make of a text that breaks off: from then on the reads return 0 and store 0. Each
of them is told by the text alone, but for one byte that the parser of the version pushes back.
-/

namespace AttoHTTP
open Library Comp

/-- The connection delivers bytes and then zeros. -/
structure Reader.Sent (r : Reader) (text : List UInt8) : Prop where
  pending : r.pending = sends text
  atEnd : r.atEnd = .zero

theorem Reader.Sent.next_nil {r : Reader} (sent : r.Sent []) : r.next = .zero := by
  rw [next_of_empty sent.pending, sent.atEnd]

theorem Reader.Sent.next_cons {r : Reader} {b : UInt8} {text : List UInt8}
    (sent : r.Sent (b :: text)) : r.next = .byte b :=
  next_of_pending sent.pending

theorem readC_sent {r : Reader} {text : List UInt8} (sent : r.Sent text) (c : UInt8) :
    (readC c r).reader.Sent text.tail := by
  constructor
  · rw [readC_pending, sent.pending]
    cases text <;> rfl
  · rw [readC_atEnd, sent.atEnd]

theorem parseSpace_blank {r : Reader} {text : List UInt8} (sent : r.Sent text)
    (blank : ∀ b ∈ text, isBlank b) {t : Scanned} (h : (parseSpace r).Returns t) :
    t.ret = 0 ∧ t.reader.Sent [] ∧ t.reader.input = [] := by
  obtain ⟨g, loop, h⟩ := returns_bind.mp h
  rw [returns_pure] at h
  have ended : g.ret = 0 ∧ g.c = 0 ∧ g.reader.input = [] ∧ g.reader.atEnd = .zero := by
    refine doWhile_invariant
      (fun g => ∃ text, g.reader.Sent text ∧ ∀ b ∈ text, isBlank b)
      (fun g => g.ret = 0 ∧ g.c = 0 ∧ g.reader.input = [] ∧ g.reader.atEnd = .zero) ?_ loop
      ⟨text, ⟨sent.pending, sent.atEnd⟩, blank⟩
    intro g hg
    obtain ⟨text, sent, blank⟩ := hg
    have after := readC_sent sent g.c
    cases text with
    | nil =>
        have stop : (parseSpaceStep g).2 = false := by
          simp [parseSpaceStep, sent.next_nil, GetByte.ret]
        rw [if_neg (by simp [stop])]
        refine ⟨by simp [parseSpaceStep, sent.next_nil, GetByte.ret],
          by simp [parseSpaceStep, sent.next_nil, GetByte.store], ?_, after.atEnd⟩
        simp [parseSpaceStep, sent.pending]
    | cons b text =>
        have again : (parseSpaceStep g).2 = true := by
          simp only [parseSpaceStep, readC_c, readC_ret, sent.next_cons, byte_store, byte_ret,
            blank b (by simp)]
          decide
        rw [if_pos again]
        exact ⟨text, after, fun b hb => blank b (by simp [hb])⟩
  obtain ⟨ret, c, input, atEnd⟩ := ended
  rw [h, c]
  exact ⟨ret, ⟨by simp [input], atEnd⟩, input⟩

/-- A NUL that is pushed back is lost. -/
def dropNul : List UInt8 → List UInt8
  | [] => []
  | c :: text => if c = 0 then text else c :: text

theorem parseSpace_stop {r : Reader} {text : List UInt8} (sent : r.Sent text) {c : UInt8}
    {rest : List UInt8} (found : text.dropWhile isBlank = c :: rest) {t : Scanned}
    (h : (parseSpace r).Returns t) : t.ret = 1 ∧ t.reader.Sent (dropNul (c :: rest)) := by
  have pending : r.pending = sends (text.takeWhile isBlank) ++ .byte c :: sends rest := by
    rw [sent.pending, ← sends_cons, ← found, ← sends_append, List.takeWhile_append_dropWhile]
  have stop : isBlank c = false := by
    have head := List.head?_dropWhile_not isBlank text
    rw [found] at head
    simpa using head
  obtain ⟨u, space, ret, -, left⟩ := parseSpace_found pending
    (fun b member => List.all_eq_true.mp List.all_takeWhile b member) stop
  obtain rfl := h.unique space
  refine ⟨ret, ?_, ?_⟩
  · rw [left, dropNul]
    split <;> rfl
  · rw [(parseSpace_follows h).atEnd, sent.atEnd]

def skipSpace (text : List UInt8) : List UInt8 := dropNul (text.dropWhile isBlank)

theorem parseSpace_sent {r : Reader} {text : List UInt8} (sent : r.Sent text) {t : Scanned}
    (h : (parseSpace r).Returns t) :
    t.ret = (if text.dropWhile isBlank = [] then 0 else 1) ∧ t.reader.Sent (skipSpace text) := by
  unfold skipSpace
  cases found : text.dropWhile isBlank with
  | nil =>
      obtain ⟨ret, left, -⟩ := parseSpace_blank sent (List.dropWhile_eq_nil_iff.mp found) h
      exact ⟨ret, left⟩
  | cons c rest => exact parseSpace_stop sent found h

/-! ## Filling a buffer -/

theorem fill_end {stop : UInt8 → Bool} {more : Int8 → Bool} {room : Nat} {r : Reader}
    {text : List UInt8} (buffer : Mem) (sent : r.Sent text) (go : ∀ b ∈ text, stop b = false)
    (go' : stop 0 = false) (again : more 1 = true) (last : more 0 = false)
    (short : text.length < room) {f : Fill} (h : (fill stop more room buffer r).Returns f) :
    f.ret = 0 ∧ f.buffer = buffer.put (text ++ [0]) ∧ f.ptr = text.length + 1 ∧
      f.reader.Left [] := by
  suffices loop : ∀ (stored : List UInt8) (ret : Int8) (r : Reader), r.Sent text →
      stored.length + text.length < room →
      (doWhile (fillStep stop more room) ⟨ret, buffer.put stored, stored.length, r⟩).Returns f →
      f.ret = 0 ∧ f.buffer = buffer.put (stored ++ text ++ [0]) ∧
        f.ptr = stored.length + text.length + 1 ∧ f.reader.Left [] by
    simpa using loop [] 1 r sent (by simpa using short) h
  clear sent short h
  induction text with
  | nil =>
      intro stored ret r sent short h
      have after : (readC (buffer.put stored stored.length) r).reader.Left [] := by
        constructor <;> simp [sent.pending]
      have exit : (fillStep stop more room ⟨ret, buffer.put stored, stored.length, r⟩).2 = false := by
        simp [fillStep, sent.next_nil, GetByte.store, GetByte.ret, go', last]
      rw [doWhile_exit exit] at h
      rw [h]
      simp only [fillStep, readC_c, readC_ret, sent.next_nil, GetByte.store, GetByte.ret, go',
        Bool.false_eq_true, if_false, Mem.put_set, List.append_nil]
      exact ⟨trivial, trivial, rfl, after⟩
  | cons b text ih =>
      intro stored ret r sent short h
      rw [List.length_cons] at short
      have step := fillStep_go stop more room
        (show (⟨ret, buffer.put stored, stored.length, r⟩ : Fill).reader.pending =
          .byte b :: sends text from sent.pending) (go b (by simp))
      have next : (fillStep stop more room ⟨ret, buffer.put stored, stored.length, r⟩).2 = true := by
        rw [step]
        simp [again]
        omega
      rw [doWhile_next next, step, Mem.put_set] at h
      have rest := ih (fun b hb => go b (by simp [hb])) (stored ++ [b]) 1 _
        (readC_sent sent (buffer.put stored stored.length)) (by simp; omega) (by simpa using h)
      simpa [Nat.add_assoc, Nat.add_comm 1] using rest

theorem split_word (stop : UInt8 → Bool) (text : List UInt8) :
    (text.takeWhile fun b => !stop b) ++ (text.dropWhile fun b => !stop b) = text ∧
      (∀ b ∈ text.takeWhile fun b => !stop b, stop b = false) ∧
      ∀ c ∈ (text.dropWhile fun b => !stop b).head?, stop c = true := by
  refine ⟨List.takeWhile_append_dropWhile, fun b member => ?_, fun c first => ?_⟩
  · simpa using List.all_eq_true.mp List.all_takeWhile b member
  · have last := List.head?_dropWhile_not (fun b => !stop b) text
    rw [Option.mem_def.mp first] at last
    simpa using last

/-- The bytes that are stored before the terminator: the end of the connection is stored too. -/
def filled (stop : UInt8 → Bool) (room : Nat) (text : List UInt8) : List UInt8 :=
  let word := text.takeWhile fun b => !stop b
  if word.length < room ∧ (text.dropWhile fun b => !stop b) = [] then word ++ [0] else word.take room

/-- The loop has run out of room, or has read a byte that ends it, or has come to the end. -/
inductive Filled (stop : UInt8 → Bool) (room : Nat) (text : List UInt8) (buffer : Mem) (f : Fill) :
    Prop
  | full (long : room ≤ (text.takeWhile fun b => !stop b).length) (ret : f.ret = 1)
      (cells : f.buffer = buffer.put (text.take room)) (ptr : f.ptr = room)
      (left : f.reader.Left (sends (text.drop room)))
  | found {c : UInt8} {rest : List UInt8}
      (short : (text.takeWhile fun b => !stop b).length < room)
      (stops : (text.dropWhile fun b => !stop b) = c :: rest) (ret : f.ret = 1)
      (cells : f.buffer = buffer.put ((text.takeWhile fun b => !stop b) ++ [c]))
      (ptr : f.ptr = (text.takeWhile fun b => !stop b).length)
      (left : f.reader.Left (sends rest))
  | ended (short : text.length < room) (none : (text.dropWhile fun b => !stop b) = [])
      (ret : f.ret = 0) (cells : f.buffer = buffer.put (text ++ [0])) (ptr : f.ptr = text.length + 1)
      (left : f.reader.Left [])

theorem fill_sent {stop : UInt8 → Bool} {more : Int8 → Bool} {room : Nat} {r : Reader}
    {text : List UInt8} (buffer : Mem) (sent : r.Sent text) (some : 0 < room) (go : stop 0 = false)
    (again : more 1 = true) (last : more 0 = false) {f : Fill}
    (h : (fill stop more room buffer r).Returns f) : Filled stop room text buffer f := by
  obtain ⟨split, goes, stops⟩ := split_word stop text
  by_cases long : room ≤ (text.takeWhile fun b => !stop b).length
  · have size : (text.take room).length = room := by
      have := congrArg List.length split
      rw [List.length_append] at this
      rw [List.length_take]
      omega
    have word : text.take room = (text.takeWhile fun b => !stop b).take room := by
      rw [← List.take_append_of_le_length long, split]
    have pending : r.pending = sends (text.take room) ++ sends (text.drop room) := by
      rw [sent.pending, ← sends_append, List.take_append_drop]
    obtain ⟨r', run, left⟩ := fill_full stop more buffer pending
      (fun b member => goes b (List.mem_of_mem_take (word ▸ member))) again
      (List.ne_nil_of_length_pos (by omega)) size
    rw [h.unique run]
    exact .full long rfl rfl size left
  · have short : (text.takeWhile fun b => !stop b).length < room := Nat.lt_of_not_le long
    cases rest : text.dropWhile fun b => !stop b with
    | nil =>
        rw [rest, List.append_nil] at split
        rw [split] at goes short
        obtain ⟨ret, cells, ptr, left⟩ := fill_end buffer sent goes go again last short h
        exact .ended short rest ret cells ptr left
    | cons c tail =>
        have pending : r.pending = sends (text.takeWhile fun b => !stop b) ++ .byte c :: sends tail := by
          rw [sent.pending, ← sends_cons, ← sends_append, ← rest, split]
        obtain ⟨r', run, left⟩ := fill_text stop more buffer pending goes
          (stops c (by simp [rest])) again short
        rw [h.unique run]
        exact .found short rest rfl rfl rfl left

theorem Filled.cells {stop : UInt8 → Bool} {room : Nat} {text : List UInt8} {buffer : Mem} {f : Fill}
    (h : Filled stop room text buffer f) :
    f.buffer.set f.ptr 0 = buffer.put (filled stop room text ++ [0]) := by
  obtain ⟨split, -, -⟩ := split_word stop text
  unfold filled
  cases h with
  | full long ret cells ptr left =>
      have word : text.take room = (text.takeWhile fun b => !stop b).take room := by
        rw [← List.take_append_of_le_length long, split]
      have size : ((text.takeWhile fun b => !stop b).take room).length = room :=
        List.length_take_of_le long
      rw [if_neg (by omega), cells, ptr, word, ← Mem.put_set, size]
  | found short stops ret cells ptr left =>
      rw [if_neg (by simp [stops]), cells, ptr, Mem.put_append_set, List.take_of_length_le short.le]
  | ended short none ret cells ptr left =>
      rw [none, List.append_nil] at split
      rw [split, if_pos ⟨short, none⟩, cells, ptr,
        show text.length + 1 = (text ++ [0]).length by simp, Mem.put_set]

def leftOver (stop : UInt8 → Bool) (room : Nat) (text : List UInt8) : List UInt8 :=
  if room ≤ (text.takeWhile fun b => !stop b).length then text.drop room
  else (text.dropWhile fun b => !stop b).tail

theorem Filled.leftOver {stop : UInt8 → Bool} {room : Nat} {text : List UInt8} {buffer : Mem}
    {f : Fill} (h : Filled stop room text buffer f) :
    f.reader.pending = sends (leftOver stop room text) := by
  unfold AttoHTTP.leftOver
  cases h with
  | full long ret cells ptr left => rw [if_pos long, left.pending]
  | found short stops ret cells ptr left => rw [if_neg (by omega), stops, left.pending]; rfl
  | ended short none ret cells ptr left =>
      obtain ⟨split, -, -⟩ := split_word stop text
      rw [none, List.append_nil] at split
      rw [split, if_neg (by omega), none, left.pending]
      rfl

/-! ## The method -/

def methodToken (text : List UInt8) : List UInt8 :=
  (text.takeWhile fun b => !isBlank b).take (tokenSize - 1)

def tokenMethod (token : List UInt8) : Option HttpMethod :=
  knownMethods.find? fun m => m.name == token.takeWhile (· ≠ 0)

def requestMethod (text : List UInt8) : Option (HttpMethod × List UInt8) :=
  match text.dropWhile isBlank with
  | [] => none
  | c :: rest =>
      let token := methodToken (dropNul (c :: rest))
      (tokenMethod token).map fun m => (m, (dropNul (c :: rest)).drop token.length)

def methodRefusal (text : List UInt8) : ReturnCode :=
  if text.dropWhile isBlank = [] then statusInternalError else statusUnsupported

theorem takeWhile_terminated (text : List UInt8) :
    (text ++ [0]).takeWhile (fun b => decide (b ≠ 0)) =
      text.takeWhile fun b => decide (b ≠ 0) := by
  induction text with
  | nil => rfl
  | cons b text ih => simp only [List.cons_append, List.takeWhile_cons, ih]

theorem findMethod_eq (buffer : Mem) :
    findMethod buffer = knownMethods.find? fun m => m.name == buffer.cstr tokenSize := by
  have names (m : HttpMethod) : (Mem.ofBytes m.name).cstr tokenSize = m.name := by
    cases m <;> decide
  simp only [findMethod, strncmpEq, names]

theorem findMethod_put (buffer : Mem) {token : List UInt8} (short : token.length < tokenSize) :
    findMethod (buffer.put (token ++ [0])) = tokenMethod token := by
  have size : (token.takeWhile (fun b => decide (b ≠ 0))).length ≤ token.length :=
    (List.takeWhile_prefix _).length_le
  rw [findMethod_eq, Mem.cstr_put_prefix, List.take_of_length_le (by omega)]
  rfl

theorem tokenMethod_filled (text : List UInt8) :
    tokenMethod (filled isBlank (tokenSize - 1) text) = tokenMethod (methodToken text) := by
  unfold filled methodToken
  dsimp only
  split
  · rename_i ended
    rw [List.take_of_length_le ended.1.le, tokenMethod, tokenMethod, takeWhile_terminated]
  · rfl

theorem length_filled (stop : UInt8 → Bool) (room : Nat) (text : List UInt8) :
    (filled stop room text).length ≤ room := by
  unfold filled
  dsimp only
  split
  · rename_i ended
    rw [List.length_append, List.length_singleton]
    exact ended.1
  · exact List.length_take_le ..

theorem leftOver_method (text : List UInt8) :
    (leftOver isBlank (tokenSize - 1) text).dropWhile isBlank =
      (text.drop (methodToken text).length).dropWhile isBlank := by
  obtain ⟨split, -, stops⟩ := split_word isBlank text
  unfold leftOver methodToken
  split
  · rename_i long
    rw [List.length_take_of_le long]
  · rename_i short
    rw [List.take_of_length_le (by omega)]
    have rest : text.drop (text.takeWhile fun b => !isBlank b).length =
        text.dropWhile fun b => !isBlank b :=
      (congrArg (List.drop _) split).symm.trans List.drop_left
    rw [rest]
    cases found : text.dropWhile fun b => !isBlank b with
    | nil => rfl
    | cons c tail =>
        have blank : isBlank c = true := stops c (by simp [found])
        rw [List.dropWhile_cons_of_pos blank, List.tail_cons]

theorem parseMethod_sent {r : Reader} {q : Request} {text : List UInt8} (sent : r.Sent text)
    {p : Parsed} (h : (parseMethod r q).Returns p) :
    (requestMethod text = none → p.request = { q with returnCode := methodRefusal text }) ∧
      ∀ m rest, requestMethod text = some (m, rest) → p.request = { q with method := m } ∧
        ∃ left, p.reader.Sent left ∧ left.dropWhile isBlank = rest.dropWhile isBlank := by
  obtain ⟨t, space, h⟩ := returns_bind.mp h
  have entered : r.enter.Sent text := ⟨sent.pending, sent.atEnd⟩
  unfold requestMethod methodRefusal
  cases found : text.dropWhile isBlank with
  | nil =>
      obtain ⟨ret, -⟩ := parseSpace_blank entered (List.dropWhile_eq_nil_iff.mp found) space
      rw [ret, if_neg (by decide)] at h
      rw [returns_pure.mp h]
      exact ⟨fun _ => rfl, by simp⟩
  | cons c rest =>
      obtain ⟨ret, left⟩ := parseSpace_stop entered found space
      rw [ret, if_pos (by decide)] at h
      obtain ⟨f, token, h⟩ := returns_bind.mp h
      have stored := fill_sent _ left (by decide) (by decide) (by decide) (by decide) token
      have size := length_filled isBlank (tokenSize - 1) (dropNul (c :: rest))
      have method := findMethod_put r.frame
        (Nat.lt_of_le_of_lt size (show tokenSize - 1 < tokenSize by decide))
      rw [← stored.cells, tokenMethod_filled] at method
      dsimp only at h ⊢
      rw [method] at h
      cases known : tokenMethod (methodToken (dropNul (c :: rest))) with
      | none =>
          simp only [known] at h
          rw [returns_pure.mp h]
          exact ⟨fun _ => rfl, by simp⟩
      | some m =>
          simp only [known] at h
          rw [returns_pure.mp h]
          refine ⟨by simp, ?_⟩
          intro m' rest' same
          obtain ⟨rfl, rfl⟩ := Prod.mk.inj (Option.some.inj same)
          exact ⟨rfl, _, ⟨stored.leftOver, (fill_follows token).atEnd.trans left.atEnd⟩,
            leftOver_method _⟩

end AttoHTTP
