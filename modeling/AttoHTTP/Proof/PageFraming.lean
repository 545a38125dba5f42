import AttoHTTP.Library.HeaderBlock
import AttoHTTP.Proof.Entry
import AttoHTTP.Proof.Serving

/-!
# The frame of a page

The length of a page goes through a signed conversion on its way into the header block, and
through none on its way into the loop that writes the content.
-/

namespace AttoHTTP
open Library Comp

/-- The connection brings a GET for this page. -/
inductive AsksPage (cfg : Config) (conn : Connection) (s : State) : Page → Prop
  | intro {p : Parsed} {page : Page}
      (parse : (parseRequest cfg conn.checkAuth (s.accept cfg conn).reader
        (s.accept cfg conn).request).Returns p)
      (authorized : p.request.authenticated ≠ 0) (unknown : p.request.returnCode = statusUnknown)
      (get : p.request.method = .get)
      (entry : findPageEntry cfg (s.asked cfg conn p).request s.registry = some page) :
      AsksPage cfg conn s page

/-- A header block with one length in it, which is that of the content after the empty line. -/
def FramedPage (content : Mem) (size : UInt32) (bytes : List UInt8) : Prop :=
  ∃ lines value, readHead [] bytes = some (lines, content.bytes size.toNat) ∧
    lines.filterMap (fieldValue (ascii "Content-Length")) = [value] ∧
    decimalValue value = some size.toNat

/-! ## Decimal numbers -/

theorem digit_of_char {c : Char} (digit : c.isDigit = true) :
    (UInt8.ofNat c.toNat).toNat = c.toNat ∧ 48 ≤ c.toNat ∧ c.toNat ≤ 57 := by
  simp only [Char.isDigit, Bool.and_eq_true, decide_eq_true_eq] at digit
  have lower : 48 ≤ c.toNat := digit.1
  have upper : c.toNat ≤ 57 := digit.2
  refine ⟨?_, lower, upper⟩
  rw [UInt8.toNat_ofNat']
  omega

theorem decimal_digits (n : Nat) : ∀ b ∈ decimal n, isDigit b = true := by
  intro b member
  obtain ⟨c, digit, rfl⟩ := List.mem_map.mp member
  obtain ⟨same, lower, upper⟩ := digit_of_char (Nat.isDigit_of_mem_toDigits (by decide) (by decide) digit)
  rw [isDigit, Bool.and_eq_true, decide_eq_true_eq, decide_eq_true_eq, UInt8.le_iff_toNat_le,
    UInt8.le_iff_toNat_le, same]
  exact ⟨lower, upper⟩

theorem decimal_ne_nil (n : Nat) : decimal n ≠ [] := by
  rw [decimal, ne_eq, List.map_eq_nil_iff]
  exact Nat.toDigits_ne_nil

theorem digits_fold {digits : List Char} (all : ∀ c ∈ digits, c.isDigit = true) (n : Nat) :
    (digits.map fun c => UInt8.ofNat c.toNat).foldl (fun n b => 10 * n + (b.toNat - 48)) n =
      Nat.ofDigitChars 10 digits n := by
  induction digits generalizing n with
  | nil => rfl
  | cons c digits ih =>
      have first := (digit_of_char (all c (by simp))).1
      rw [List.map_cons, List.foldl_cons, first, ih fun c member => all c (by simp [member])]
      rfl

theorem decimalValue_decimal (n : Nat) : decimalValue (decimal n) = some n := by
  rw [decimalValue, if_pos ⟨decimal_ne_nil n, List.all_eq_true.mpr (decimal_digits n)⟩, decimal,
    digits_fold fun c => Nat.isDigit_of_mem_toDigits (by decide) (by decide),
    Nat.ofDigitChars_toDigits (by decide) (by decide)]

theorem decimalValue_decimalInt (n : UInt32) :
    decimalValue (decimalInt n) = some n.toNat ↔ n.toNat < 2 ^ 31 := by
  unfold decimalInt
  by_cases positive : n.toNat < 2 ^ 31
  · rw [if_pos positive, decimalValue_decimal]
    exact iff_of_true rfl positive
  · rw [if_neg positive]
    have sign : decimalValue (45 :: decimal (2 ^ 32 - n.toNat)) = none := by
      rw [decimalValue, if_neg]
      simp [isDigit]
    rw [sign]
    exact iff_of_false (by simp) positive

/-! ## The lines of the response -/

def pageLines (cfg : Config) (type : MimeType) (size : UInt32) : List (List UInt8) :=
  [httpVersion10 ++ ascii " " ++ decimal 200 ++ ascii " " ++ ascii "OK",
    ascii "Content-Type: " ++ type.name ++ ascii "; charset=utf-8",
    ascii "Content-Length: " ++ decimalInt size] ++
      if cfg.gzipPages then [ascii "Content-Encoding: gzip"] else []

theorem pageText_lines (cfg : Config) (type : MimeType) {size : UInt32} (positive : 0 < size)
    (body : List UInt8) :
    statusLineText 200 (ascii "OK") ++ (headerText cfg type size ++ body) =
      ((pageLines cfg type size).map (· ++ [13, 10])).flatten ++ 13 :: 10 :: body := by
  simp only [statusLineText, headerText, contentTypeLine, contentLengthLine, gzipLine, pageLines,
    httpEol, if_pos positive]
  cases cfg.gzipPages <;> simp [show UInt16.toNat 200 = 200 from rfl]

theorem decimalInt_plain (n : UInt32) : ∀ b ∈ decimalInt n, b = 45 ∨ isDigit b = true := by
  intro b member
  unfold decimalInt at member
  split at member
  · exact .inr (decimal_digits _ b member)
  · cases member with
    | head => exact .inl rfl
    | tail _ later => exact .inr (decimal_digits _ b later)

theorem pageLines_plain (cfg : Config) (type : MimeType) (size : UInt32) :
    ∀ line ∈ pageLines cfg type size, 10 ∉ line ∧ line ≠ [] := by
  have fixed : ∀ line ∈ [httpVersion10 ++ ascii " " ++ decimal 200 ++ ascii " " ++ ascii "OK",
      ascii "Content-Type: " ++ type.name ++ ascii "; charset=utf-8",
      ascii "Content-Encoding: gzip"], 10 ∉ line ∧ line ≠ [] := by
    cases type <;> decide
  have length : 10 ∉ ascii "Content-Length: " ++ decimalInt size ∧
      ascii "Content-Length: " ++ decimalInt size ≠ [] := by
    refine ⟨fun member => ?_, by simp [ascii]⟩
    rcases List.mem_append.mp member with name | number
    · exact absurd name (by decide)
    · rcases decimalInt_plain size 10 number with sign | digit
      · exact absurd sign (by decide)
      · exact absurd digit (by decide)
  intro line member
  simp only [pageLines, List.mem_append, List.mem_cons, List.not_mem_nil, or_false] at member
  rcases member with (rfl | rfl | rfl) | gzip
  · exact fixed _ (by simp)
  · exact fixed _ (by simp)
  · exact length
  · split at gzip
    · rw [List.mem_singleton.mp gzip]
      exact fixed _ (by simp)
    · cases gzip

theorem contentLength_lines (cfg : Config) (type : MimeType) (size : UInt32) :
    (pageLines cfg type size).filterMap (fieldValue (ascii "Content-Length")) =
      [decimalInt size] := by
  have others : ∀ line ∈ [httpVersion10 ++ ascii " " ++ decimal 200 ++ ascii " " ++ ascii "OK",
      ascii "Content-Type: " ++ type.name ++ ascii "; charset=utf-8",
      ascii "Content-Encoding: gzip"], fieldValue (ascii "Content-Length") line = none := by
    cases type <;> decide
  have length : fieldValue (ascii "Content-Length") (ascii "Content-Length: " ++ decimalInt size) =
      some (decimalInt size) := by
    refine @fieldValue_named (ascii "Content-Length") (decimalInt size) (by decide) ?_
    intro b first
    rcases decimalInt_plain size b (List.mem_of_mem_head? first) with sign | digit
    · rw [sign]
      decide
    · cases blank : isBlank b with
      | false => rfl
      | true =>
          simp only [isBlank, Bool.or_eq_true, beq_iff_eq] at blank
          rcases blank with rfl | rfl <;> exact absurd digit (by decide)
  have status := others _ (List.mem_cons_self ..)
  have type' := others _ (List.mem_cons_of_mem _ (List.mem_cons_self ..))
  have gzip := others _ (List.mem_cons_of_mem _ (List.mem_cons_of_mem _ (List.mem_cons_self ..)))
  rw [pageLines, List.filterMap_append, List.filterMap_cons_none status,
    List.filterMap_cons_none type', List.filterMap_cons_some length]
  cases cfg.gzipPages with
  | true => rw [if_pos rfl, List.filterMap_cons_none gzip]; rfl
  | false => rfl

theorem framedPage_text (cfg : Config) (content : Mem) (type : MimeType) {size : UInt32}
    (positive : 0 < size) :
    FramedPage content size (statusLineText 200 (ascii "OK") ++
      (headerText cfg type size ++ content.bytes size.toNat)) ↔ size.toNat < 2 ^ 31 := by
  have read := readHead_lines (pageLines_plain cfg type size) (content.bytes size.toNat)
  rw [← pageText_lines cfg type positive] at read
  rw [← decimalValue_decimalInt]
  constructor
  · rintro ⟨lines, value, head, field, number⟩
    rw [read] at head
    cases head
    rw [contentLength_lines] at field
    cases field
    exact number
  · intro number
    exact ⟨_, _, read, contentLength_lines cfg type size, number⟩

/-! ## The response -/

variable {cfg : Config} {conn : Connection} {s : State} {page : Page} {content : Mem}

theorem AsksPage.written (asks : AsksPage cfg conn s page) (registered : page.content = some content) :
    ∃ t, (execute cfg conn s).Returns t ∧
      t.written = statusLineText 200 (ascii "OK") ++
        (headerText cfg page.type page.size ++ content.bytes page.size.toNat) := by
  cases asks with
  | @intro p _ parse authorized unknown get entry =>
      obtain ⟨answers, total⟩ := @answer_routes cfg conn.visit
        { s.accept cfg conn with reader := p.reader, request := p.request }
        ⟨rfl, rfl, rfl⟩ authorized unknown
      have route : State.route cfg
          { s.accept cfg conn with reader := p.reader, request := p.request } =
          .page content page.size page.type := by
        have same : findPageEntry cfg p.request s.registry = some page := entry
        have registry : (s.accept cfg conn).registry = s.registry := rfl
        simp only [State.route, registry, same, if_pos get, registered, Option.getD_some]
      rw [route] at answers total
      obtain ⟨u, answer⟩ := total (.inl rfl)
      exact ⟨_, parse.bind (answer.bind (returns_pure.mpr rfl)), ((answers u answer).response _ _ rfl).2⟩

theorem asksPage_text (auth : cfg.auth = .none) {calls : List Registration}
    (proper : ∀ call ∈ calls, call.Proper cfg) (text : RequestText) (get : text.method = .get)
    (path : 63 ∉ text.target) (short : text.target.length < cfg.urlBufferSize) {e : Entry}
    (found : (Site.init.registerAll cfg calls).find cfg text.target = some e) :
    ∃ page, AsksPage cfg (.ofBytes text.render) (State.boot.setUp cfg calls) page ∧ page.Is cfg e := by
  have reachable := reachable_setUp cfg calls
  obtain ⟨r', run, -⟩ := parseRequest_text auth (Connection.ofBytes text.render).checkAuth text
    (q := ((State.boot.setUp cfg calls).accept cfg (.ofBytes text.render)).request)
    (show ((State.boot.setUp cfg calls).accept cfg (.ofBytes text.render)).reader.pending =
      sends text.render ++ [] from (List.append_nil _).symm) rfl rfl
    (accept_last reachable (.ofBytes text.render))
  have holds : (State.boot.setUp cfg calls).registry.Holds cfg (Site.init.registerAll cfg calls) :=
    registerAll_holds proper (init_holds cfg State.boot)
  have one : ((State.boot.setUp cfg calls).accept cfg (.ofBytes text.render)).request.authenticated = 1 :=
    if_pos auth
  have url : (text.asked cfg
      ((State.boot.setUp cfg calls).accept cfg (.ofBytes text.render)).request).Path cfg text.target := by
    have same := @result_path cfg text
      ((State.boot.setUp cfg calls).accept cfg (.ofBytes text.render)).request path short
    exact ⟨same.url, same.urlLen, same.nonzero, same.nonempty, same.short⟩
  have lookup := findPageEntry_is url holds
  cases entry : findPageEntry cfg (text.asked cfg
      ((State.boot.setUp cfg calls).accept cfg (.ofBytes text.render)).request)
      (State.boot.setUp cfg calls).registry with
  | none =>
      rw [entry] at lookup
      exact absurd (lookup.symm.trans found) (by simp)
  | some page =>
      rw [entry] at lookup
      obtain ⟨e', found', same⟩ := lookup
      obtain rfl := Option.some.inj (found'.symm.trans found)
      refine ⟨page, .intro run ?_ rfl get entry, same⟩
      change ((State.boot.setUp cfg calls).accept cfg (.ofBytes text.render)).request.authenticated ≠ 0
      rw [one]
      decide

/-- The length sent is the length of the page when it fits a signed number. -/
theorem page_framed_iff (asks : AsksPage cfg conn s page) (registered : page.content = some content)
    (positive : 0 < page.size) :
    ∃ t, (execute cfg conn s).Returns t ∧
      (FramedPage content page.size t.written ↔ page.size.toNat < 2 ^ 31) := by
  obtain ⟨t, run, written⟩ := asks.written registered
  refine ⟨t, run, ?_⟩
  rw [written]
  exact framedPage_text cfg content page.type positive

theorem page_framed_icon :
    ∃ (page : Page) (content : Mem) (t : State), page.content = some content ∧ 0 < page.size ∧
      (execute (.default .none) (.ofBytes iconRequest.render)
        (State.boot.setUp (.default .none) [])).Returns t ∧
      (FramedPage content page.size t.written ↔ page.size.toNat < 2 ^ 31) := by
  obtain ⟨page, asks, same⟩ := @asksPage_text (.default .none) rfl [] (by simp) iconRequest rfl
    (by decide) (by decide)
    ⟨faviconPath, .ofBytes faviconIco, UInt32.ofNat faviconIco.length, .imagePng⟩ rfl
  have positive : 0 < page.size := by
    rw [same.size]
    decide +kernel
  obtain ⟨t, run, framed⟩ := page_framed_iff asks same.content positive
  exact ⟨page, _, t, same.content, positive, run, framed⟩

def largePage : Registration := .addPage (ascii "/a") (some fun _ => 97) (2 ^ 31) .textPlain

def largeRequest : RequestText :=
  { iconRequest with target := ascii "/a", target_plain := by decide }

theorem page_not_framed :
    ∃ t, (execute (.default .none) (.ofBytes largeRequest.render)
        (State.boot.setUp (.default .none) [largePage])).Returns t ∧
      ¬ FramedPage (fun _ => 97) (2 ^ 31) t.written := by
  obtain ⟨page, asks, same⟩ := @asksPage_text (.default .none) rfl [largePage]
    (by simp only [List.mem_singleton, forall_eq]; exact ⟨by decide, rfl⟩) largeRequest rfl
    (by decide) (by decide) ⟨ascii "/a", fun _ => 97, 2 ^ 31, .textPlain⟩ rfl
  obtain ⟨t, run, written⟩ := asks.written same.content
  refine ⟨t, run, fun framed => ?_⟩
  rw [written, same.size] at framed
  exact absurd ((framedPage_text _ _ _ (by decide)).mp framed) (by decide)

end AttoHTTP
