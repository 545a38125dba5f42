import AttoHTTP.Proof.Delivery
import AttoHTTP.Proof.Lasting

/-!
# Parsing undoes rendering

A well-formed request is a value whose text can be rendered; the parsers find in the text what the
value says, up to what fits their buffers.
-/

namespace AttoHTTP
open Library Comp

structure Header where
  name : List UInt8
  blanks : List UInt8
  value : List UInt8
  name_plain : ∀ b ∈ name, b ≠ 58 ∧ b ≠ 13 ∧ b ≠ 10 ∧ b ≠ 0
  name_start : ∀ b ∈ name.head?, isSpace b = false
  blanks_blank : ∀ b ∈ blanks, isBlank b
  value_plain : ∀ b ∈ value, b ≠ 13 ∧ b ≠ 10 ∧ b ≠ 0
  value_start : ∀ b ∈ value.head?, isBlank b = false

structure RequestText where
  method : HttpMethod
  beforeTarget : List UInt8
  target : List UInt8
  beforeVersion : List UInt8
  version : List UInt8
  afterVersion : List UInt8
  headers : List Header
  method_known : method ∈ knownMethods
  beforeTarget_blank : beforeTarget ≠ [] ∧ ∀ b ∈ beforeTarget, isBlank b
  target_plain : target ≠ [] ∧ ∀ b ∈ target, isBlank b = false ∧ b ≠ 0
  beforeVersion_blank : beforeVersion ≠ [] ∧ ∀ b ∈ beforeVersion, isBlank b
  version_plain : version ≠ [] ∧ version.length ≤ 8 ∧ ∀ b ∈ version, isSpace b = false ∧ b ≠ 0
  afterVersion_blank : ∀ b ∈ afterVersion, isBlank b

/-! The pieces that the requests below have in common. -/

theorem get_known : HttpMethod.get ∈ knownMethods := by decide

theorem post_known : HttpMethod.post ∈ knownMethods := by decide

theorem space_blank : ([32] : List UInt8) ≠ [] ∧ ∀ b ∈ ([32] : List UInt8), isBlank b := by decide

theorem space_blanks : ∀ b ∈ ([32] : List UInt8), isBlank b := space_blank.2

theorem none_blanks : ∀ b ∈ ([] : List UInt8), isBlank b := by decide

theorem httpVersion10_plain : httpVersion10 ≠ [] ∧ httpVersion10.length ≤ 8 ∧
    ∀ b ∈ httpVersion10, isSpace b = false ∧ b ≠ 0 := by decide

theorem httpVersion11_plain : httpVersion11 ≠ [] ∧ httpVersion11.length ≤ 8 ∧
    ∀ b ∈ httpVersion11, isSpace b = false ∧ b ≠ 0 := by decide

def Header.render (h : Header) : List UInt8 := h.name ++ [58] ++ h.blanks ++ h.value ++ httpEol

def renderHeaders (headers : List Header) : List UInt8 := headers.flatMap Header.render ++ httpEol

def RequestText.render (q : RequestText) : List UInt8 :=
  q.method.name ++ q.beforeTarget ++ q.target ++ q.beforeVersion ++ q.version ++ q.afterVersion ++
    httpEol ++ renderHeaders q.headers

/-! ## What the headers say -/

def equalFold (a b : List UInt8) : Bool := a.map toLower == b.map toLower

structure Negotiated where
  accept : UInt16
  contenttype : MimeType

/-- What one header sets, by its name and the part of its value that is kept. -/
def Header.negotiate (cfg : Config) (n : Negotiated) (h : Header) : Negotiated :=
  let value := h.value.take (cfg.headerValueSize - 1)
  if equalFold h.name (ascii "accept") then
    { n with
      accept := ((mimeTypes.find? fun t => equalFold value t.name).map fun t =>
        1 <<< UInt16.ofNat t.index).getD n.accept }
  else if equalFold h.name (ascii "content-type") then
    { n with contenttype := (mimeTypes.find? fun t => t.name <:+: value).getD n.contenttype }
  else n

def Request.negotiated (q : Request) : Negotiated := ⟨q.accept, q.contenttype⟩

def Request.settle (q : Request) (n : Negotiated) : Request :=
  { q with accept := n.accept, contenttype := n.contenttype }

structure Credentials where
  authenticated : UInt8
  returnCode : ReturnCode
  authLog : List Verdict

def Request.credentials (q : Request) : Credentials := ⟨q.authenticated, q.returnCode, q.authLog⟩

def Request.withCredentials (q : Request) (a : Credentials) : Request :=
  { q with authenticated := a.authenticated, returnCode := a.returnCode, authLog := a.authLog }

theorem authorize_credentials (cfg : Config) (check : CheckAuth) (value : Mem) (q : Request) :
    ∃ a, authorize cfg check value q = q.withCredentials a := by
  unfold authorize checkAuth
  dsimp only
  split
  · split <;> split <;> exact ⟨⟨_, _, _⟩, rfl⟩
  · exact ⟨⟨_, _, _⟩, rfl⟩

theorem recordHeader_sets (cfg : Config) (check : CheckAuth) (name value : Mem) (q : Request) :
    ∃ n a, recordHeader cfg check name value q = (q.settle n).withCredentials a ∧
      (cfg.auth = .none → a = q.credentials) := by
  unfold recordHeader
  split
  · exact ⟨⟨acceptRule cfg value q.accept, q.contenttype⟩, q.credentials, rfl, fun _ => rfl⟩
  · split
    · exact ⟨⟨q.accept, contentTypeRule cfg value q.contenttype⟩, q.credentials, rfl, fun _ => rfl⟩
    · split
      · split
        · exact ⟨q.negotiated, q.credentials, rfl, fun _ => rfl⟩
        · rename_i auth
          obtain ⟨a, same⟩ := authorize_credentials cfg check value q
          exact ⟨q.negotiated, a, same, fun none => absurd none auth⟩
      · exact ⟨q.negotiated, q.credentials, rfl, fun _ => rfl⟩

theorem equalFold_length {a b : List UInt8} (h : equalFold a b = true) : a.length = b.length := by
  simpa using congrArg List.length (beq_iff_eq.mp h)

theorem strncasecmpEq_text {text name : List UInt8} {n : Nat} (nonzero : ∀ b ∈ text, b ≠ 0)
    (plain : ∀ b ∈ name, b ≠ 0) (short : text.length < n) (buffer : Mem) :
    strncasecmpEq (buffer.put (text ++ [0])) (.ofBytes name) n = equalFold text name := by
  rw [strncasecmpEq, Mem.cstr_put buffer nonzero, Mem.cstr_ofBytes plain,
    List.take_of_length_le short.le, equalFold, Bool.eq_iff_iff, beq_iff_eq, beq_iff_eq]
  constructor
  · intro equal
    have length := congrArg List.length equal
    simp only [List.length_map, List.length_take] at length
    rw [equal, List.take_of_length_le (by omega)]
  · intro equal
    have length := congrArg List.length equal
    simp only [List.length_map] at length
    rw [equal, List.take_of_length_le (by omega)]

theorem mime_plain : ∀ t ∈ mimeTypes, ∀ b ∈ t.name, b ≠ 0 := by decide

theorem foldl_match {α β : Type} {l : List α} {p : α → Bool} {f : α → β}
    (unique : ∀ t ∈ l, ∀ t' ∈ l, p t → p t' → f t = f t') (acc : β) :
    l.foldl (fun acc t => if p t then f t else acc) acc = ((l.find? p).map f).getD acc := by
  induction l generalizing acc with
  | nil => rfl
  | cons t l ih =>
      have rest := ih fun a ha b hb => unique a (by simp [ha]) b (by simp [hb])
      rw [List.foldl_cons, rest, List.find?_cons]
      cases first : p t with
      | false => rfl
      | true =>
          cases found : l.find? p with
          | none => rfl
          | some t' =>
              have member := List.mem_of_find?_eq_some found
              exact unique t' (by simp [member]) t (by simp) (List.find?_some found) first

theorem mime_distinct : ∀ t ∈ mimeTypes, ∀ t' ∈ mimeTypes,
    t.name.map toLower = t'.name.map toLower → t = t' := by
  decide

theorem acceptRule_text {cfg : Config} {value : List UInt8} (nonzero : ∀ b ∈ value, b ≠ 0)
    (short : value.length < cfg.headerValueSize) (buffer : Mem) (accept : UInt16) :
    acceptRule cfg (buffer.put (value ++ [0])) accept =
      ((mimeTypes.find? fun t => equalFold value t.name).map fun t =>
        1 <<< UInt16.ofNat t.index).getD accept := by
  rw [← foldl_match]
  · apply List.foldl_ext
    intro accept t known
    rw [strncasecmpEq_text nonzero (mime_plain t known) short buffer]
  · intro t known t' known' equal equal'
    rw [equalFold, beq_iff_eq] at equal equal'
    rw [mime_distinct t known t' known' (equal.symm.trans equal')]

theorem contentTypeRule_text {cfg : Config} {value : List UInt8} (nonzero : ∀ b ∈ value, b ≠ 0)
    (short : value.length < cfg.headerValueSize) (buffer : Mem) (contenttype : MimeType) :
    contentTypeRule cfg (buffer.put (value ++ [0])) contenttype =
      (mimeTypes.find? fun t => t.name <:+: value).getD contenttype := by
  have found (t : MimeType) : (strstr value t.name).isSome = decide (t.name <:+: value) := by
    rw [Bool.eq_iff_iff, strstr_isSome, decide_eq_true_eq]
  rw [contentTypeRule, Mem.cstr_put buffer nonzero, List.take_of_length_le short.le]
  simp only [found]

theorem headerName_text {cfg : Config} (h : Header) (buffer : Mem) {name : List UInt8}
    (known : ∀ b ∈ name, b ≠ 0) (fits : name.length < 14) :
    strncasecmpEq (buffer.put (h.name.take (cfg.headerNameSize - 1) ++ [0])) (.ofBytes name)
      cfg.headerNameSize = equalFold h.name name := by
  have room := cfg.name_ge
  have plain : ∀ b ∈ h.name.take (cfg.headerNameSize - 1), b ≠ 0 :=
    fun b hb => (h.name_plain b (List.mem_of_mem_take hb)).2.2.2
  have cut : (h.name.take (cfg.headerNameSize - 1)).length < cfg.headerNameSize := by
    rw [List.length_take]
    omega
  rw [strncasecmpEq_text plain known cut]
  by_cases whole : h.name.length < cfg.headerNameSize - 1
  · rw [List.take_of_length_le whole.le]
  · have different {text : List UInt8} (long : 14 ≤ text.length) : equalFold text name = false := by
      by_contra equal
      rw [Bool.not_eq_false] at equal
      have := equalFold_length equal
      omega
    rw [different (by rw [List.length_take]; omega), different (by omega)]

/-- What is read as the value: a name that fills its buffer leaves the rest of the line. -/
def Header.valueText (cfg : Config) (h : Header) : List UInt8 :=
  if h.name.length < cfg.headerNameSize - 1 then h.value
  else (h.name.drop (cfg.headerNameSize - 1) ++ [58] ++ h.blanks ++ h.value).dropWhile isBlank

def Header.kept (cfg : Config) (h : Header) : List UInt8 :=
  (h.valueText cfg).take (cfg.headerValueSize - 1)

theorem valueText_own {cfg : Config} {h : Header} (short : h.name.length < cfg.headerNameSize - 1) :
    h.valueText cfg = h.value := if_pos short

theorem header_line (n : Nat) (h : Header) :
    ∀ b ∈ h.name.drop n ++ [58] ++ h.blanks ++ h.value, b ≠ 13 ∧ b ≠ 10 ∧ b ≠ 0 := by
  intro b member
  simp only [List.mem_append, List.mem_singleton] at member
  rcases member with ((old | colon) | blank) | value
  · exact (h.name_plain b (List.mem_of_mem_drop old)).2
  · rw [colon]
    decide
  · have := h.blanks_blank b blank
    refine ⟨?_, ?_, ?_⟩ <;> intro equal <;> rw [equal] at this <;> exact absurd this (by decide)
  · exact h.value_plain b value

theorem valueText_plain (cfg : Config) (h : Header) :
    ∀ b ∈ h.valueText cfg, b ≠ 13 ∧ b ≠ 10 ∧ b ≠ 0 := by
  unfold Header.valueText
  split
  · exact h.value_plain
  · exact fun b member => header_line _ h b (List.dropWhile_subset _ member)

theorem valueText_start (cfg : Config) (h : Header) :
    ∀ b ∈ (h.valueText cfg).head?, isBlank b = false := by
  unfold Header.valueText
  split
  · exact h.value_start
  · generalize h.name.drop (cfg.headerNameSize - 1) ++ [58] ++ h.blanks ++ h.value = line
    intro b member
    have head := List.head?_dropWhile_not isBlank line
    rw [Option.mem_def] at member
    rw [member] at head
    simpa using head

theorem kept_plain (cfg : Config) (h : Header) : ∀ b ∈ h.kept cfg, b ≠ 0 :=
  fun b member => (valueText_plain cfg h b (List.mem_of_mem_take member)).2.2

theorem kept_short (cfg : Config) (h : Header) : (h.kept cfg).length < cfg.headerValueSize := by
  have room := cfg.value_ge
  rw [Header.kept, List.length_take]
  omega

theorem kept_own {cfg : Config} {h : Header} {name : List UInt8} (equal : equalFold h.name name = true)
    (fits : name.length < 14) : h.kept cfg = h.value.take (cfg.headerValueSize - 1) := by
  have room := cfg.name_ge
  have length := equalFold_length equal
  rw [Header.kept, valueText_own (by omega)]

theorem recordHeader_text {cfg : Config} (check : CheckAuth) (h : Header)
    (nameBuffer valueBuffer : Mem) (q : Request) :
    ∃ a, recordHeader cfg check (nameBuffer.put (h.name.take (cfg.headerNameSize - 1) ++ [0]))
        (valueBuffer.put (h.kept cfg ++ [0])) q =
          (q.settle (h.negotiate cfg q.negotiated)).withCredentials a ∧
      (cfg.auth = .none → a = q.credentials) := by
  have plain := kept_plain cfg h
  have short := kept_short cfg h
  rw [recordHeader, Header.negotiate, headerName_text h _ (by decide) (by decide),
    headerName_text h _ (by decide) (by decide), headerName_text h _ (by decide) (by decide)]
  by_cases accept : equalFold h.name (ascii "accept") = true
  · rw [if_pos accept, if_pos accept, ← kept_own accept (by decide), acceptRule_text plain short]
    exact ⟨q.credentials, rfl, fun _ => rfl⟩
  · rw [if_neg accept, if_neg accept]
    by_cases contentType : equalFold h.name (ascii "content-type") = true
    · rw [if_pos contentType, if_pos contentType, ← kept_own contentType (by decide),
        contentTypeRule_text plain short]
      exact ⟨q.credentials, rfl, fun _ => rfl⟩
    · rw [if_neg contentType, if_neg contentType]
      split
      · split
        · exact ⟨q.credentials, rfl, fun _ => rfl⟩
        · rename_i auth
          obtain ⟨a, same⟩ := authorize_credentials cfg check (valueBuffer.put (h.kept cfg ++ [0])) q
          exact ⟨a, same, fun none => absurd none auth⟩
      · exact ⟨q.credentials, rfl, fun _ => rfl⟩

/-! ## The header lines -/

theorem renderHeaders_start (headers : List Header) :
    (headers = [] ∧ renderHeaders headers = [13, 10]) ∨
      ∃ c rest, headers ≠ [] ∧ renderHeaders headers = c :: rest ∧ isSpace c = false ∧ c ≠ 0 := by
  cases headers with
  | nil => exact .inl ⟨rfl, rfl⟩
  | cons h headers =>
      right
      cases name : h.name with
      | nil =>
          refine ⟨58, h.blanks ++ h.value ++ httpEol ++ renderHeaders headers, by simp, ?_,
            by decide, by decide⟩
          simp [renderHeaders, Header.render, name]
      | cons c rest =>
          refine ⟨c, rest ++ [58] ++ h.blanks ++ h.value ++ httpEol ++ renderHeaders headers,
            by simp, ?_, h.name_start c (by simp [name]), (h.name_plain c (by simp [name])).2.2.2⟩
          simp [renderHeaders, Header.render, name]

/-- The end of a line before the header lines: it sees whether there are any. -/
theorem parseEOL_headers {r : Reader} {q : Request} {junk : List UInt8} {headers : List Header}
    {body : List GetByte}
    (pending : r.pending = sends junk ++ .byte 10 :: (sends (renderHeaders headers) ++ body))
    (none : ∀ b ∈ junk, b ≠ 10) :
    ∃ r', (parseEOL r q).Returns
        ⟨1, r', if headers = [] then { q with headersDone := true } else q⟩ ∧
      (headers = [] → r'.input = body ∧ r'.pending = .byte 10 :: body) ∧
      (headers ≠ [] → r'.pending = sends (renderHeaders headers) ++ body) := by
  cases renderHeaders_start headers with
  | inl empty =>
      rw [empty.2] at pending
      obtain ⟨r', run, input, left⟩ := parseEOL_empty (q := q)
        (show r.pending = sends junk ++ .byte 10 :: (sends [13] ++ .byte 10 :: body) from pending)
        none (by decide)
      refine ⟨r', ?_, fun _ => ⟨input, left⟩, fun other => absurd empty.1 other⟩
      rw [if_pos empty.1]
      exact run
  | inr more =>
      obtain ⟨c, rest, other, text, stop, nonzero⟩ := more
      rw [text, sends_cons, List.cons_append] at pending
      obtain ⟨r', run, left⟩ := parseEOL_line (q := q) pending none stop nonzero
      refine ⟨r', ?_, fun empty => absurd empty other, fun _ => ?_⟩
      · rw [if_neg other]
        exact run
      · rw [text, sends_cons, List.cons_append]
        exact left

theorem parseValue_text {cfg : Config} {r : Reader} {value : List UInt8} {rest : List GetByte}
    (buffer : Mem) (pending : r.pending = sends value ++ .byte 13 :: .byte 10 :: rest)
    (plain : ∀ b ∈ value, b ≠ 13 ∧ b ≠ 10 ∧ b ≠ 0) :
    ∃ f junk, (fill (fun c => c == 13 || c == 10) (fun ret => 0 < ret) (cfg.headerValueSize - 1)
        buffer r).Returns f ∧
      f.buffer.set f.ptr 0 = buffer.put (value.take (cfg.headerValueSize - 1) ++ [0]) ∧
      (if f.ptr < cfg.headerValueSize - 1 then pushC (f.buffer f.ptr) f.reader
        else f.reader).pending = sends junk ++ .byte 10 :: rest ∧ ∀ b ∈ junk, b ≠ 10 := by
  have room := cfg.value_ge
  have go : ∀ b ∈ value, (b == 13 || b == 10) = false := by
    intro b member
    simp [plain b member]
  by_cases short : value.length < cfg.headerValueSize - 1
  · obtain ⟨r', run, left⟩ := fill_text (fun c => c == 13 || c == 10) (fun ret => 0 < ret)
      buffer pending go (by decide) (by decide) short
    refine ⟨_, [13], run, ?_, ?_, by decide⟩
    · rw [Mem.put_append_set, List.take_of_length_le short.le]
    · have cell : (buffer.put (value ++ [13])) value.length = 13 := by
        rw [Mem.put_of_lt _ (by simp)]
        simp
      simp only [if_pos short, cell]
      exact (pushC_left left (by decide)).2
  · have size : (value.take (cfg.headerValueSize - 1)).length = cfg.headerValueSize - 1 := by
      rw [List.length_take]
      omega
    have split : sends value ++ .byte 13 :: .byte 10 :: rest =
        sends (value.take (cfg.headerValueSize - 1)) ++
          (sends (value.drop (cfg.headerValueSize - 1) ++ [13]) ++ .byte 10 :: rest) := by
      rw [sends_append, List.append_assoc, ← List.append_assoc (sends (value.take _)),
        ← sends_append, List.take_append_drop]
      rfl
    rw [split] at pending
    obtain ⟨r', run, left⟩ := fill_full (fun c => c == 13 || c == 10) (fun ret => 0 < ret)
      buffer pending (fun b hb => go b (List.mem_of_mem_take hb)) (by decide)
      (List.ne_nil_of_length_pos (by rw [size]; omega)) size
    refine ⟨_, value.drop (cfg.headerValueSize - 1) ++ [13], run, ?_, ?_, ?_⟩
    · rw [Mem.put_set]
    · simp only [size, lt_irrefl, if_false]
      exact left.pending
    · intro b member
      cases List.mem_append.mp member with
      | inl old => exact (plain b (List.mem_of_mem_drop old)).2.1
      | inr new =>
          rw [List.mem_singleton.mp new]
          decide

theorem fillName_text (cfg : Config) {h : Header} {rest : List GetByte} {r : Reader} (buffer : Mem)
    (pending : r.pending = sends h.render ++ rest) :
    ∃ f blanks, (fill (fun c => c == 58) (fun ret => 0 < ret) (cfg.headerNameSize - 1)
        buffer r).Returns f ∧
      f.buffer.set f.ptr 0 = buffer.put (h.name.take (cfg.headerNameSize - 1) ++ [0]) ∧
      (∀ b ∈ blanks, isBlank b) ∧
      f.reader.pending =
        sends blanks ++ (sends (h.valueText cfg) ++ .byte 13 :: .byte 10 :: rest) := by
  have room := cfg.name_ge
  have go : ∀ b ∈ h.name, (b == 58) = false := by
    intro b member
    simp [h.name_plain b member]
  by_cases short : h.name.length < cfg.headerNameSize - 1
  · have text : r.pending = sends h.name ++ .byte 58 ::
        (sends h.blanks ++ (sends h.value ++ .byte 13 :: .byte 10 :: rest)) := by
      rw [pending]
      simp [Header.render, httpEol]
    obtain ⟨r', run, left⟩ := fill_text (fun c => c == 58) (fun ret => 0 < ret) buffer text go
      (by decide) (by decide) short
    refine ⟨_, h.blanks, run, ?_, h.blanks_blank, ?_⟩
    · rw [Mem.put_append_set, List.take_of_length_le short.le]
    · rw [valueText_own short]
      exact left.pending
  · have size : (h.name.take (cfg.headerNameSize - 1)).length = cfg.headerNameSize - 1 := by
      rw [List.length_take]
      omega
    have text : r.pending = sends (h.name.take (cfg.headerNameSize - 1)) ++
        (sends (h.name.drop (cfg.headerNameSize - 1) ++ [58] ++ h.blanks ++ h.value) ++
          .byte 13 :: .byte 10 :: rest) := by
      rw [pending, ← List.append_assoc, ← sends_append]
      simp only [← List.append_assoc, List.take_append_drop]
      simp [Header.render, httpEol]
    obtain ⟨r', run, left⟩ := fill_full (fun c => c == 58) (fun ret => 0 < ret) buffer text
      (fun b hb => go b (List.mem_of_mem_take hb)) (by decide)
      (List.ne_nil_of_length_pos (by rw [size]; omega)) size
    refine ⟨_, (h.name.drop (cfg.headerNameSize - 1) ++ [58] ++ h.blanks ++ h.value).takeWhile isBlank,
      run, by rw [Mem.put_set], fun b member => List.all_eq_true.mp List.all_takeWhile b member, ?_⟩
    rw [left.pending, Header.valueText, if_neg short, ← List.append_assoc, ← sends_append,
      List.takeWhile_append_dropWhile]

structure HeaderLoop.Ahead (headers : List Header) (body : List GetByte) (l : HeaderLoop) : Prop where
  ret : l.ret = 1
  done : l.request.headersDone = headers.isEmpty
  last : headers = [] → l.reader.input = body ∧ l.reader.pending = .byte 10 :: body
  more : headers ≠ [] → l.reader.pending = sends (renderHeaders headers) ++ body

variable {cfg : Config} {headers : List Header} {body : List GetByte}

theorem HeaderLoop.Ahead.stop {l : HeaderLoop} (ahead : l.Ahead [] body) : moreHeaders l = false := by
  simp [moreHeaders, ahead.done]

theorem HeaderLoop.Ahead.again {l : HeaderLoop} {h : Header} (ahead : l.Ahead (h :: headers) body) :
    moreHeaders l = true := by
  have positive : (0 : Int8) < 1 := by decide
  simp [moreHeaders, ahead.done, ahead.ret, positive]

theorem headersDone_of_lines (headers : List Header) {q : Request} (more : q.headersDone = false) :
    (if headers = [] then { q with headersDone := true } else q) =
      { q with headersDone := headers.isEmpty } := by
  cases headers with
  | nil => rfl
  | cons h headers => rw [if_neg (by simp), List.isEmpty_cons, ← more]

theorem parseHeader_text (cfg : Config) {l : HeaderLoop} {h : Header} (ahead : l.Ahead (h :: headers) body) :
    ∃ l', (parseHeader cfg l).Returns l' ∧
      l'.name = l.name.put (h.name.take (cfg.headerNameSize - 1) ++ [0]) ∧
      l'.value = l.value.put (h.kept cfg ++ [0]) ∧
      l'.request = { l.request with headersDone := headers.isEmpty } ∧ l'.Ahead headers body := by
  have pending : l.reader.pending = sends h.render ++ (sends (renderHeaders headers) ++ body) := by
    rw [ahead.more (by simp)]
    simp [renderHeaders]
  have plain := valueText_plain cfg h
  obtain ⟨f, blanks, name, nameText, blank, text⟩ := fillName_text cfg l.name pending
  obtain ⟨t, space, left⟩ : ∃ t, (parseSpace f.reader).Returns t ∧ t.reader.pending =
      sends (h.valueText cfg) ++ .byte 13 :: .byte 10 :: (sends (renderHeaders headers) ++ body) := by
    have start := valueText_start cfg h
    cases value : h.valueText cfg with
    | nil =>
        rw [value] at text
        obtain ⟨t, space, -, -, left⟩ := parseSpace_text text blank (by decide) (by decide)
        exact ⟨t, space, left⟩
    | cons b value' =>
        rw [value] at text start plain
        obtain ⟨t, space, -, -, left⟩ := parseSpace_text text blank (start b (by simp))
          (plain b (by simp)).2.2
        exact ⟨t, space, left⟩
  obtain ⟨g, junk, fillValue, valueText, lineEnd, none⟩ := parseValue_text l.value left plain
  obtain ⟨r', eol, last, more⟩ := parseEOL_headers (q := l.request) lineEnd none
  rw [headersDone_of_lines headers ahead.done] at eol
  refine ⟨⟨1, f.buffer.set f.ptr 0, g.buffer.set g.ptr 0, r', _⟩, ?_, nameText, valueText, rfl,
    rfl, rfl, last, more⟩
  rw [parseHeader]
  exact name.bind (space.bind (fillValue.bind (eol.bind (returns_pure.mpr rfl))))

theorem recordHeader_done {check : CheckAuth} {name value : Mem} {q : Request} :
    (recordHeader cfg check name value q).headersDone = q.headersDone := by
  obtain ⟨n, a, same, -⟩ := recordHeader_sets cfg check name value q
  rw [same]
  rfl

theorem HeaderLoop.Ahead.record {l : HeaderLoop} (ahead : l.Ahead headers body) (check : CheckAuth) :
    HeaderLoop.Ahead headers body
      { l with request := recordHeader cfg check l.name l.value l.request } :=
  ⟨ahead.ret, recordHeader_done.trans ahead.done, ahead.last, ahead.more⟩

theorem headersLoop_text (check : CheckAuth) {l : HeaderLoop} (ahead : l.Ahead headers body) :
    ∃ l' a, (whileDoM moreHeaders (parseHeadersBody cfg check) l).Returns l' ∧ l'.Ahead [] body ∧
      l'.request = ({ l.request.settle
          (headers.foldl (Header.negotiate cfg) l.request.negotiated) with
        headersDone := true } : Request).withCredentials a ∧
      (cfg.auth = .none → a = l.request.credentials) := by
  induction headers generalizing l with
  | nil =>
      refine ⟨l, l.request.credentials, (whileDoM_stop ahead.stop).mpr rfl, ahead, ?_, fun _ => rfl⟩
      have done := ahead.done
      rw [List.isEmpty_nil] at done
      rw [List.foldl_nil, ← done]
      rfl
  | cons h headers ih =>
      obtain ⟨l', header, name, value, request, next⟩ := parseHeader_text cfg ahead
      obtain ⟨a, record, unchanged⟩ := recordHeader_text check h l.name l.value l'.request
      rw [← name, ← value] at record
      have recorded : recordHeader cfg check l'.name l'.value l'.request =
          ({ l.request.settle (h.negotiate cfg l.request.negotiated) with
            headersDone := headers.isEmpty } : Request).withCredentials a := by
        rw [record, request]
        rfl
      obtain ⟨l'', a', run, last, final, same⟩ := ih (next.record check)
      refine ⟨l'', a', (whileDoM_next ahead.again).mpr ⟨_, header.bind (returns_pure.mpr rfl), run⟩,
        last, ?_, fun auth => ?_⟩
      · rw [final]
        dsimp only
        rw [recorded]
        rfl
      · rw [same auth]
        dsimp only
        rw [recorded, unchanged auth, request]
        rfl

/-! ## The whole request -/

def RequestText.lineResult (cfg : Config) (text : RequestText) (q : Request) : Request :=
  { ({ q with method := text.method } : Request).target cfg text.target with
    version := versionOf text.version }

def RequestText.result (cfg : Config) (text : RequestText) (q : Request) : Request :=
  { (text.lineResult cfg q).settle (text.headers.foldl (Header.negotiate cfg) q.negotiated) with
    headersDone := true }

theorem RequestText.firstLine_returnCode (text : RequestText) (cfg : Config) (q : Request) :
    (if text.headers = [] then { text.lineResult cfg q with headersDone := true }
      else text.lineResult cfg q).returnCode = q.returnCode := by
  split <;> rfl

theorem RequestText.firstLine_done (text : RequestText) (cfg : Config) {q : Request}
    (fresh : q.headersDone = false) :
    (if text.headers = [] then { text.lineResult cfg q with headersDone := true }
      else text.lineResult cfg q).headersDone = text.headers.isEmpty := by
  cases text.headers with
  | nil => rfl
  | cons h headers =>
      rw [if_neg (by simp)]
      exact fresh

theorem parseRequestLine_text {cfg : Config} (text : RequestText) {r : Reader} {q : Request}
    {body : List GetByte} (pending : r.pending = sends text.render ++ body)
    (unknown : q.returnCode = statusUnknown)
    (last : isBlank (q.url (cfg.urlBufferSize - 1)) = false) :
    ∃ r', (parseRequestLine cfg r q).Returns ⟨1, r',
        if text.headers = [] then { text.lineResult cfg q with headersDone := true }
        else text.lineResult cfg q⟩ ∧
      (text.headers = [] → r'.input = body ∧ r'.pending = .byte 10 :: body) ∧
      (text.headers ≠ [] → r'.pending = sends (renderHeaders text.headers) ++ body) := by
  obtain ⟨b, gap, before⟩ := List.exists_cons_of_ne_nil text.beforeTarget_blank.1
  obtain ⟨c, gap', before'⟩ := List.exists_cons_of_ne_nil text.beforeVersion_blank.1
  have blank := text.beforeTarget_blank.2
  have blank' := text.beforeVersion_blank.2
  rw [before] at blank
  rw [before'] at blank'
  have line : r.pending = sends text.method.name ++ .byte b :: (sends gap ++ (sends text.target ++
      .byte c :: (sends gap' ++ (sends text.version ++ (sends (text.afterVersion ++ [13]) ++
        .byte 10 :: (sends (renderHeaders text.headers) ++ body)))))) := by
    rw [pending]
    simp [RequestText.render, before, before', httpEol]
  obtain ⟨r₁, method, left⟩ := parseMethod_text text.method_known line (blank b (by simp))
  obtain ⟨r₂, url, left⟩ := parseURL_text (q := { q with method := text.method }) left
    (fun x hx => blank x (by simp [hx])) text.target_plain.1 text.target_plain.2
    (blank' c (by simp)) last
  obtain ⟨d, rest, after⟩ : ∃ d rest, text.afterVersion ++ [13] = d :: rest := by
    cases text.afterVersion with
    | nil => exact ⟨13, [], rfl⟩
    | cons d rest => exact ⟨d, rest ++ [13], rfl⟩
  have space : isSpace d = true := by
    have member : d ∈ text.afterVersion ++ [13] := by simp [after]
    cases List.mem_append.mp member with
    | inl blank => exact isSpace_of_isBlank (text.afterVersion_blank d blank)
    | inr cr =>
        rw [List.mem_singleton.mp cr]
        decide
  have none : ∀ x ∈ text.afterVersion ++ [13], x ≠ 10 := by
    intro x member equal
    cases List.mem_append.mp member with
    | inl blank =>
        have := text.afterVersion_blank x blank
        rw [equal] at this
        exact absurd this (by decide)
    | inr cr =>
        rw [List.mem_singleton.mp cr] at equal
        exact absurd equal (by decide)
  rw [after] at left
  obtain ⟨r₃, left, version⟩ := parseVersion_text
    (q := ({ q with method := text.method } : Request).target cfg text.target)
    (show r₂.pending = sends (c :: gap') ++ _ from left) blank' text.version_plain.1
    (Nat.lt_of_le_of_lt text.version_plain.2.1 (by decide)) text.version_plain.2.2 space
  have tail : r₃.pending = sends (text.afterVersion ++ [13]) ++
      .byte 10 :: (sends (renderHeaders text.headers) ++ body) := by
    rw [left, after]
    rfl
  obtain ⟨r₄, eol, empty, more⟩ := parseEOL_headers (q := text.lineResult cfg q) tail none
  have start : ({ q with method := text.method } : Request).returnCode = statusUnknown := unknown
  refine ⟨r₄, method.bind ?_, empty, more⟩
  rw [if_pos start]
  exact url.bind ((version _).mpr eol)

theorem parseRequest_credentials {cfg : Config} (check : CheckAuth) (text : RequestText)
    {r : Reader} {q : Request} {body : List GetByte}
    (pending : r.pending = sends text.render ++ body) (unknown : q.returnCode = statusUnknown)
    (fresh : q.headersDone = false) (last : isBlank (q.url (cfg.urlBufferSize - 1)) = false) :
    ∃ r' a, (parseRequest cfg check r q).Returns ⟨1, r', (text.result cfg q).withCredentials a⟩ ∧
      (cfg.auth = .none → a = q.credentials) ∧ r'.input = body ∧ r'.pending = .byte 10 :: body := by
  obtain ⟨r₁, line, empty, more⟩ := parseRequestLine_text text pending unknown last
  have running := (text.firstLine_returnCode cfg q).trans unknown
  have done := text.firstLine_done cfg fresh
  obtain ⟨l, a, loop, last, final, unchanged⟩ := headersLoop_text check
    (l := ⟨1, r₁.frame, r₁.enter.frame, r₁.enter.enter, _⟩) ⟨rfl, done, empty, more⟩
  have same : l.request = (text.result cfg q).withCredentials a := by
    rw [final, RequestText.result]
    cases text.headers <;> rfl
  refine ⟨l.reader, a, line.bind ?_, fun auth => ?_, last.last rfl⟩
  · rw [if_pos running]
    exact loop.bind (returns_pure.mpr (by rw [last.ret, same]))
  · rw [unchanged auth]
    dsimp only
    cases text.headers <;> rfl

theorem parseRequest_text {cfg : Config} (auth : cfg.auth = .none) (check : CheckAuth)
    (text : RequestText) {r : Reader} {q : Request} {body : List GetByte}
    (pending : r.pending = sends text.render ++ body) (unknown : q.returnCode = statusUnknown)
    (fresh : q.headersDone = false) (last : isBlank (q.url (cfg.urlBufferSize - 1)) = false) :
    ∃ r', (parseRequest cfg check r q).Returns ⟨1, r', text.result cfg q⟩ ∧ r'.input = body ∧
      r'.pending = .byte 10 :: body := by
  obtain ⟨r', a, run, unchanged, left⟩ :=
    parseRequest_credentials check text pending unknown fresh last
  rw [unchanged auth] at run
  exact ⟨r', run, left⟩

/-- Parsing a rendered request gives back the request, as far as it fits the buffers. -/
theorem parseRequest_render {cfg : Config} (auth : cfg.auth = .none) {s : State}
    (reachable : Reachable cfg s) (text : RequestText) (conn : Connection) (body : List GetByte)
    (input : conn.input = sends text.render ++ body) :
    ∃ p, (parseRequest cfg conn.checkAuth (s.accept cfg conn).reader
        (s.accept cfg conn).request).Returns p ∧
      p.request.method = text.method ∧
      p.request.url.bytes (p.request.urlLen + 1) =
        urlCells (text.target.take (cfg.urlBufferSize - 1)) ++ [0] ∧
      p.request.urlLen = min (cfg.urlBufferSize - 1) text.target.length ∧
      p.request.version = versionOf text.version ∧
      p.request.negotiated = text.headers.foldl (Header.negotiate cfg)
        (s.accept cfg conn).request.negotiated ∧
      p.request.headersDone = true ∧ p.request.returnCode = statusUnknown ∧
      p.reader.input = body ∧ p.reader.pending = .byte 10 :: body := by
  have pending : (s.accept cfg conn).reader.pending = sends text.render ++ body := input
  have last := accept_last reachable conn
  obtain ⟨r', run, left, rest⟩ := parseRequest_text auth conn.checkAuth text
    (q := (s.accept cfg conn).request) pending rfl rfl last
  have size : (urlCells (text.target.take (cfg.urlBufferSize - 1)) ++ [0]).length =
      (text.target.take (cfg.urlBufferSize - 1)).length + 1 := by simp
  refine ⟨_, run, rfl, ?_, List.length_take .., rfl, rfl, rfl, rfl, left, rest⟩
  change ((s.accept cfg conn).request.url.put
    (urlCells (text.target.take (cfg.urlBufferSize - 1)) ++ [0])).bytes
      ((text.target.take (cfg.urlBufferSize - 1)).length + 1) = _
  rw [← size, Mem.bytes_put]

def iconRequest : RequestText where
  method := .get
  beforeTarget := [32]
  target := faviconPath
  beforeVersion := [32]
  version := httpVersion11
  afterVersion := []
  headers :=
    [{ name := ascii "Accept", blanks := [32], value := ascii "image/png"
       name_plain := by decide, name_start := fun _ h => by cases h; decide, blanks_blank := space_blanks
       value_plain := by decide, value_start := fun _ h => by cases h; decide }]
  method_known := get_known
  beforeTarget_blank := space_blank
  target_plain := by decide
  beforeVersion_blank := space_blank
  version_plain := httpVersion11_plain
  afterVersion_blank := none_blanks

theorem reachable_setUp (cfg : Config) (calls : List Registration) :
    Reachable cfg (State.boot.setUp cfg calls) :=
  ⟨State.boot, calls, [], fun _ _ => rfl, .nil _⟩

theorem parseRequest_render_icon :
    ∃ p, (parseRequest (.default .none) (Connection.ofBytes iconRequest.render).checkAuth
        ((State.boot.setUp (.default .none) []).accept (.default .none)
          (.ofBytes iconRequest.render)).reader
        ((State.boot.setUp (.default .none) []).accept (.default .none)
          (.ofBytes iconRequest.render)).request).Returns p ∧
      p.request.method = .get ∧
      p.request.url.bytes (p.request.urlLen + 1) = urlCells (faviconPath.take 63) ++ [0] ∧
      p.request.urlLen = min 63 faviconPath.length ∧
      p.request.version = versionOf httpVersion11 ∧
      p.request.negotiated = iconRequest.headers.foldl (Header.negotiate (.default .none))
        ((State.boot.setUp (.default .none) []).accept (.default .none)
          (.ofBytes iconRequest.render)).request.negotiated ∧
      p.request.headersDone = true ∧ p.request.returnCode = statusUnknown ∧
      p.reader.input = [] ∧ p.reader.pending = [.byte 10] :=
  parseRequest_render rfl (reachable_setUp _ _) iconRequest (.ofBytes iconRequest.render) []
    (List.append_nil _).symm

end AttoHTTP
