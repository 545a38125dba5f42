import AttoHTTP.Proof.JsonBounds

namespace AttoHTTP
open Library Comp

/-! ## Single characters -/

def JsonScan.Quiet (s : JsonScan) : Prop := s.sqlevel = 0 ∧ s.dqlevel = 0

variable {s : JsonScan} {c : UInt8}

theorem nestJson_ordinary {j : JsonState} (plain : c ∉ [123, 125, 91, 93]) :
    nestJson c j = (j, false) := by
  simp only [List.mem_cons, List.not_mem_nil, or_false, not_or] at plain
  obtain ⟨h₁, h₂, h₃, h₄⟩ := plain
  rw [nestJson, if_neg h₁, if_neg h₂, if_neg h₃, if_neg h₄]

theorem lex_blank (blank : isSpace c = true) (quiet : s.Quiet) (level : s.json.level ≤ 1) :
    s.lex c = (s, .skip, .next) := by
  have colon : c ≠ 58 := by
    rintro rfl
    cases blank
  unfold JsonScan.lex
  dsimp only
  rw [if_neg fun h => colon h.1, if_pos ⟨blank, quiet.1, quiet.2, level⟩]

theorem lex_char (colon : ¬ (c = 58 ∧ s.json.cblevel = 1 ∧ s.json.sblevel = 0 ∧ s.sqlevel ≠ 1 ∧
      s.dqlevel ≠ 1))
    (blank : ¬ (isSpace c = true ∧ s.sqlevel = 0 ∧ s.dqlevel = 0 ∧ s.json.level ≤ 1))
    (single : ¬ (c = 39 ∧ s.json.level ≤ 1 ∧ s.dqlevel = 0))
    (double : ¬ (c = 34 ∧ s.json.level ≤ 1 ∧ s.sqlevel = 0)) (plain : c ∉ [44, 123, 125, 91, 93]) :
    s.lex c = (s, .char, .next) := by
  have brackets : c ∉ [123, 125, 91, 93] := fun member => plain (List.mem_cons_of_mem _ member)
  simp only [List.mem_cons, List.not_mem_nil, or_false, not_or] at plain
  obtain ⟨h₁, h₂, h₃, h₄, h₅⟩ := plain
  unfold JsonScan.lex
  dsimp only
  rw [if_neg colon, if_neg blank, if_neg fun h => h₁ h.1, if_neg single, if_neg double,
    if_neg fun h => h₂ h.1, if_neg fun h => h₃ h.1, if_neg fun h => h₄ h.1, if_neg fun h => h₅ h.1,
    nestJson_ordinary brackets]
  rfl

inductive JsonQuote
  | single
  | double
deriving DecidableEq

def JsonQuote.char : JsonQuote → UInt8
  | .single => 39
  | .double => 34

def JsonScan.open (s : JsonScan) : JsonQuote → JsonScan
  | .single => { s with sqlevel := 1 }
  | .double => { s with dqlevel := 1 }

theorem lex_open (q : JsonQuote) (quiet : s.Quiet) (level : s.json.level ≤ 1) :
    s.lex q.char = (s.open q, .skip, .next) := by
  obtain ⟨sq, dq, j⟩ := s
  obtain ⟨rfl, rfl⟩ : sq = 0 ∧ dq = 0 := quiet
  have level' : j.level ≤ 1 := level
  cases q with
  | single => simp [JsonScan.lex, JsonQuote.char, JsonScan.open, isSpace, level']
  | double => simp [JsonScan.lex, JsonQuote.char, JsonScan.open, isSpace, level']

theorem lex_close (q : JsonQuote) (quiet : s.Quiet) (level : s.json.level ≤ 1) :
    (s.open q).lex q.char = (s, .skip, .next) := by
  obtain ⟨sq, dq, j⟩ := s
  obtain ⟨rfl, rfl⟩ : sq = 0 ∧ dq = 0 := quiet
  have level' : j.level ≤ 1 := level
  cases q with
  | single => simp [JsonScan.lex, JsonQuote.char, JsonScan.open, isSpace, level']
  | double => simp [JsonScan.lex, JsonQuote.char, JsonScan.open, isSpace, level']

theorem lex_quoted {q : JsonQuote} (quiet : s.Quiet) (other : c ≠ q.char)
    (plain : c ∉ [44, 123, 125, 91, 93]) : (s.open q).lex c = (s.open q, .char, .next) := by
  obtain ⟨sq, dq, j⟩ := s
  obtain ⟨rfl, rfl⟩ : sq = 0 ∧ dq = 0 := quiet
  cases q with
  | single =>
      apply lex_char _ _ _ _ plain
      · exact fun h => h.2.2.2.1 rfl
      · exact fun h => absurd h.2.1 (by simp [JsonScan.open])
      · exact fun h => other h.1
      · exact fun h => absurd h.2.2 (by simp [JsonScan.open])
  | double =>
      apply lex_char _ _ _ _ plain
      · exact fun h => h.2.2.2.2 rfl
      · exact fun h => absurd h.2.2.1 (by simp [JsonScan.open])
      · exact fun h => absurd h.2.2 (by simp [JsonScan.open])
      · exact fun h => other h.1

theorem lex_comma (level : s.json.level = 1) : s.lex 44 = (s, .skip, .stop) := by
  unfold JsonScan.lex
  dsimp only
  rw [if_neg fun h => absurd h.1 (by decide), if_neg fun h => absurd h.1 (by decide),
    if_pos ⟨rfl, level⟩]

theorem lex_colon (quiet : s.Quiet) (curly : s.json.cblevel = 1) (square : s.json.sblevel = 0) :
    s.lex 58 = (s, .divide, .next) := by
  unfold JsonScan.lex
  dsimp only
  rw [if_pos ⟨rfl, curly, square, by rw [quiet.1]; decide, by rw [quiet.2]; decide⟩]

theorem lex_brace (level : s.json.level = 0) :
    s.lex 123 = ({ s with json := openJson 123 { s.json with cblevel := s.json.cblevel + 1 } },
      .skip, .next) := by
  unfold JsonScan.lex
  dsimp only
  rw [if_neg fun h => absurd h.1 (by decide), if_neg fun h => absurd h.1 (by decide),
    if_neg fun h => absurd h.1 (by decide), if_neg fun h => absurd h.1 (by decide),
    if_neg fun h => absurd h.1 (by decide), if_pos ⟨rfl, level⟩]

theorem lex_unbrace (curly : s.json.cblevel ≤ 1) (base : s.json.baselevel = 123) :
    s.lex 125 = ({ s with json := { s.json with cblevel := s.json.cblevel - 1 } }, .skip, .push) := by
  unfold JsonScan.lex
  dsimp only
  rw [if_neg fun h => absurd h.1 (by decide), if_neg fun h => absurd h.1 (by decide),
    if_neg fun h => absurd h.1 (by decide), if_neg fun h => absurd h.1 (by decide),
    if_neg fun h => absurd h.1 (by decide), if_neg fun h => absurd h.1 (by decide),
    if_pos ⟨rfl, curly, base⟩]

theorem lex_bracket (level : s.json.level = 0) :
    s.lex 91 = ({ s with json := openJson 91 { s.json with sblevel := s.json.sblevel + 1 } },
      .skip, .next) := by
  unfold JsonScan.lex
  dsimp only
  rw [if_neg fun h => absurd h.1 (by decide), if_neg fun h => absurd h.1 (by decide),
    if_neg fun h => absurd h.1 (by decide), if_neg fun h => absurd h.1 (by decide),
    if_neg fun h => absurd h.1 (by decide), if_neg fun h => absurd h.1 (by decide),
    if_neg fun h => absurd h.1 (by decide), if_pos ⟨rfl, level⟩]

theorem lex_unbracket (square : s.json.sblevel = 1) (base : s.json.baselevel = 91) :
    s.lex 93 = ({ s with json := { s.json with sblevel := s.json.sblevel - 1 } }, .skip, .stop) := by
  unfold JsonScan.lex
  dsimp only
  rw [if_neg fun h => absurd h.1 (by decide), if_neg fun h => absurd h.1 (by decide),
    if_neg fun h => absurd h.1 (by decide), if_neg fun h => absurd h.1 (by decide),
    if_neg fun h => absurd h.1 (by decide), if_neg fun h => absurd h.1 (by decide),
    if_neg fun h => absurd h.1 (by decide), if_neg fun h => absurd h.1 (by decide),
    if_pos ⟨rfl, square, base⟩]

theorem lex_deep (deep : 1 < s.json.level)
    (curly : ¬ (c = 125 ∧ s.json.cblevel ≤ 1 ∧ s.json.baselevel = 123))
    (square : ¬ (c = 93 ∧ s.json.sblevel = 1 ∧ s.json.baselevel = 91)) :
    s.lex c = ({ s with json := (nestJson c s.json).1 }, .char,
      if (nestJson c s.json).2 then .stop else .next) := by
  have high : ¬ s.json.level ≤ 1 := UInt8.not_le.mpr deep
  have level : s.json.level ≠ 1 := by
    intro one
    rw [one] at high
    exact high (by decide)
  have level' : s.json.level ≠ 0 := by
    intro zero
    rw [zero] at high
    exact high (by decide)
  unfold JsonScan.lex
  dsimp only
  rw [if_neg (fun h => level (by rw [JsonState.level, h.2.1, h.2.2.1]; rfl)),
    if_neg fun h => high h.2.2.2, if_neg fun h => level h.2, if_neg fun h => high h.2.1,
    if_neg fun h => high h.2.1, if_neg fun h => level' h.2, if_neg curly,
    if_neg fun h => level' h.2, if_neg square]

/-! ## Runs -/

variable {v : JsonView} {sym : JsonSym} {text rest : List UInt8} {nl vl : UInt8}

theorem run_next (nonzero : c ≠ 0) (lex : v.scan.lex c = (s, sym, .next)) (room : 0 < v.valueLen)
    (text : List UInt8) : v.run (c :: text) = (v.feed c).run text := by
  rw [JsonView.run, if_neg nonzero, lex]
  exact if_pos (feed_valueLen v c room)

theorem run_stop (nonzero : c ≠ 0) (lex : v.scan.lex c = (s, sym, .stop)) (text : List UInt8) :
    v.run (c :: text) = (v.feed c, some text) := by
  rw [JsonView.run, if_neg nonzero, lex]

theorem run_push (nonzero : c ≠ 0) (lex : v.scan.lex c = (s, sym, .push)) (text : List UInt8) :
    v.run (c :: text) = (v.feed c, some (c :: text)) := by
  rw [JsonView.run, if_neg nonzero, lex]

theorem feed_skip {move : JsonMove} (lex : v.scan.lex c = (s, .skip, move)) :
    v.feed c = { v with scan := s } := by
  rw [JsonView.feed, lex]
  rfl

theorem feed_char {move : JsonMove} (lex : v.scan.lex c = (s, .char, move)) :
    v.feed c = { v.store c with scan := s } := by
  rw [JsonView.feed, lex]
  rfl

theorem run_blanks {blanks : List UInt8} (blank : ∀ b ∈ blanks, isSpace b = true)
    (quiet : v.scan.Quiet) (level : v.scan.json.level ≤ 1) (room : 0 < v.valueLen) :
    v.run (blanks ++ rest) = v.run rest := by
  induction blanks with
  | nil => rfl
  | cons b blanks ih =>
      have first := blank b (by simp)
      have nonzero : b ≠ 0 := by
        rintro rfl
        cases first
      have lex := lex_blank first quiet level
      rw [List.cons_append, run_next nonzero lex room, feed_skip lex]
      exact ih fun b member => blank b (by simp [member])

/-! ## Stored characters -/

def JsonView.stores (v : JsonView) (text : List UInt8) : JsonView := text.foldl JsonView.store v

theorem stores_cons (v : JsonView) (c : UInt8) (text : List UInt8) :
    v.stores (c :: text) = (v.store c).stores text := rfl

theorem store_setScan (v : JsonView) (s : JsonScan) (c : UInt8) :
    JsonView.store { v with scan := s } c = { v.store c with scan := s } := by
  simp only [JsonView.store]
  split
  · split <;> rfl
  · split <;> rfl

theorem stores_setScan (v : JsonView) (s : JsonScan) (text : List UInt8) :
    JsonView.stores { v with scan := s } text = { v.stores text with scan := s } := by
  induction text generalizing v with
  | nil => rfl
  | cons c text ih =>
      rw [stores_cons, stores_cons, store_setScan]
      exact ih _

theorem stores_scan (v : JsonView) (text : List UInt8) : (v.stores text).scan = v.scan := by
  induction text generalizing v with
  | nil => rfl
  | cons c text ih => rw [stores_cons, ih, store_scan]

theorem stores_valueLen (v : JsonView) (text : List UInt8) (room : 0 < v.valueLen) :
    0 < (v.stores text).valueLen := by
  induction text generalizing v with
  | nil => exact room
  | cons c text ih => exact ih (v.store c) (store_valueLen v c room)

theorem run_chars (chars : ∀ b ∈ text, b ≠ 0 ∧ v.scan.lex b = (v.scan, .char, .next))
    (room : 0 < v.valueLen) : v.run (text ++ rest) = (v.stores text).run rest := by
  induction text generalizing v with
  | nil => rfl
  | cons b text ih =>
      obtain ⟨nonzero, lex⟩ := chars b (by simp)
      have same : v.feed b = v.store b := by
        rw [feed_char lex]
        conv => lhs; rw [← store_scan v b]
      rw [List.cons_append, run_next nonzero lex room, same, stores_cons]
      apply ih
      · intro b' member
        rw [store_scan]
        exact chars b' (by simp [member])
      · exact store_valueLen v b room

theorem stores_name (opened : 0 < v.nameLen) (text : List UInt8) : ∃ n, 0 < n ∧
    v.stores text =
      { v with name := v.name ++ text.take (v.nameLen.toNat - 1), nameLen := n } := by
  induction text generalizing v with
  | nil => exact ⟨v.nameLen, opened, by simp [JsonView.stores]⟩
  | cons c text ih =>
      rw [stores_cons, JsonView.store, if_pos opened]
      by_cases more : 1 < v.nameLen
      · rw [if_pos more]
        have one := sub_one_toNat (UInt8.pos_iff_ne_zero.mp opened)
        have less := UInt8.lt_iff_toNat_lt.mp more
        rw [UInt8.toNat_one] at less
        obtain ⟨n, positive, same⟩ := ih (v := { v with
          name := v.name ++ [c], nameLen := v.nameLen - 1 }) (by
            rw [UInt8.lt_iff_toNat_lt, UInt8.toNat_zero]
            dsimp only
            omega)
        refine ⟨n, positive, ?_⟩
        rw [same]
        dsimp only
        rw [show v.nameLen.toNat - 1 = ((v.nameLen - 1).toNat - 1) + 1 by omega, List.take_succ_cons,
          List.append_assoc]
        rfl
      · rw [if_neg more]
        have full := more
        rw [UInt8.lt_iff_toNat_lt, UInt8.toNat_one] at full
        obtain ⟨n, positive, same⟩ := ih opened
        refine ⟨n, positive, ?_⟩
        rw [same, show v.nameLen.toNat - 1 = 0 by omega, List.take_zero, List.take_zero]

theorem stores_value (closed : v.nameLen = 0) (room : 0 < v.valueLen) (text : List UInt8) :
    ∃ n, 0 < n ∧ v.stores text =
      { v with value := v.value ++ text.take (v.valueLen.toNat - 1), valueLen := n } := by
  have shut : ¬ 0 < v.nameLen := by
    rw [closed]
    decide
  induction text generalizing v with
  | nil => exact ⟨v.valueLen, room, by simp [JsonView.stores]⟩
  | cons c text ih =>
      rw [stores_cons, JsonView.store, if_neg shut]
      by_cases more : 1 < v.valueLen
      · rw [if_pos more]
        have one := sub_one_toNat (UInt8.pos_iff_ne_zero.mp room)
        have less := UInt8.lt_iff_toNat_lt.mp more
        rw [UInt8.toNat_one] at less
        obtain ⟨n, positive, same⟩ := ih (v := { v with
          value := v.value ++ [c], valueLen := v.valueLen - 1 }) closed (by
            rw [UInt8.lt_iff_toNat_lt, UInt8.toNat_zero]
            dsimp only
            omega) shut
        refine ⟨n, positive, ?_⟩
        rw [same]
        dsimp only
        rw [show v.valueLen.toNat - 1 = ((v.valueLen - 1).toNat - 1) + 1 by omega,
          List.take_succ_cons, List.append_assoc]
        rfl
      · rw [if_neg more]
        have full := more
        rw [UInt8.lt_iff_toNat_lt, UInt8.toNat_one] at full
        obtain ⟨n, positive, same⟩ := ih closed room shut
        refine ⟨n, positive, ?_⟩
        rw [same, show v.valueLen.toNat - 1 = 0 by omega, List.take_zero, List.take_zero]

/-! ## Tokens -/

inductive JsonToken
  | quoted (q : JsonQuote) (text : List UInt8)
  | bare (text : List UInt8)

def JsonToken.content : JsonToken → List UInt8
  | .quoted _ text => text
  | .bare text => text

def JsonToken.source : JsonToken → List UInt8
  | .quoted q text => q.char :: text ++ [q.char]
  | .bare text => text

def JsonToken.Flat : JsonToken → Prop
  | .quoted q text => ∀ b ∈ text, b ≠ 0 ∧ b ≠ q.char ∧ b ∉ [44, 123, 125, 91, 93]
  | .bare text => text ≠ [] ∧
      ∀ b ∈ text, b ≠ 0 ∧ isSpace b = false ∧ b ∉ [39, 34] ∧ b ∉ [44, 123, 125, 91, 93]

/-- A colon stands between quotes only. -/
def JsonToken.Keyable : JsonToken → Prop
  | .quoted _ _ => True
  | .bare text => 58 ∉ text

theorem run_quoted {q : JsonQuote} (flat : (JsonToken.quoted q text).Flat) (quiet : v.scan.Quiet)
    (level : v.scan.json.level ≤ 1) (room : 0 < v.valueLen) :
    v.run ((JsonToken.quoted q text).source ++ rest) = (v.stores text).run rest := by
  have nonzero : q.char ≠ 0 := by cases q <;> decide
  have opening := lex_open q quiet level
  have closing := lex_close q quiet level
  have inside := stores_setScan v (v.scan.open q) text
  change v.run (q.char :: (text ++ [q.char]) ++ rest) = _
  rw [List.cons_append, List.append_assoc, run_next nonzero opening room, feed_skip opening,
    run_chars (v := { v with scan := v.scan.open q }) (fun b member => ⟨(flat b member).1,
      lex_quoted quiet (flat b member).2.1 (flat b member).2.2⟩) room, inside, List.singleton_append,
    run_next (v := { v.stores text with scan := v.scan.open q }) nonzero closing
      (stores_valueLen v text room), feed_skip closing]
  dsimp only
  conv => lhs; rw [← stores_scan v text]

theorem run_token {token : JsonToken} (flat : token.Flat)
    (key : v.scan.json.cblevel = 1 ∧ v.scan.json.sblevel = 0 → token.Keyable)
    (quiet : v.scan.Quiet) (level : v.scan.json.level ≤ 1) (room : 0 < v.valueLen) :
    v.run (token.source ++ rest) = (v.stores token.content).run rest := by
  cases token with
  | quoted q text => exact run_quoted flat quiet level room
  | bare text =>
      apply run_chars _ room
      intro b member
      obtain ⟨nonzero, solid, unquoted, plain⟩ := flat.2 b member
      refine ⟨nonzero, lex_char ?_ ?_ ?_ ?_ plain⟩
      · rintro ⟨rfl, curly, square, -⟩
        exact key ⟨curly, square⟩ member
      · rintro ⟨blank, -⟩
        rw [solid] at blank
        cases blank
      · rintro ⟨rfl, -⟩
        exact unquoted (by decide)
      · rintro ⟨rfl, -⟩
        exact unquoted (by decide)

end AttoHTTP
