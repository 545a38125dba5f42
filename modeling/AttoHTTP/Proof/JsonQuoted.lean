import AttoHTTP.Proof.JsonFlat

namespace AttoHTTP
open Library Comp

/-! ## Characters between quotes -/

variable {q : JsonQuote} {c : UInt8} {j : JsonState}

/-- What is left of the branches once a quote is open. -/
def stringChar (c : UInt8) (j : JsonState) : JsonState × JsonSym × JsonMove :=
  if c = 44 ∧ j.level = 1 then (j, .skip, .stop)
  else if c = 123 ∧ j.level = 0 then (openJson c { j with cblevel := j.cblevel + 1 }, .skip, .next)
  else if c = 125 ∧ j.cblevel ≤ 1 ∧ j.baselevel = 123 then
    ({ j with cblevel := j.cblevel - 1 }, .skip, .push)
  else if c = 91 ∧ j.level = 0 then (openJson c { j with sblevel := j.sblevel + 1 }, .skip, .next)
  else if c = 93 ∧ j.sblevel = 1 ∧ j.baselevel = 91 then
    ({ j with sblevel := j.sblevel - 1 }, .skip, .stop)
  else ((nestJson c j).1, .char, if (nestJson c j).2 then .stop else .next)

def quotedScan (q : JsonQuote) (j : JsonState) : JsonScan := JsonScan.open ⟨0, 0, j⟩ q

theorem lex_string (other : c ≠ q.char) :
    (quotedScan q j).lex c = (quotedScan q (stringChar c j).1, (stringChar c j).2) := by
  have colon : ¬ (c = 58 ∧ j.cblevel = 1 ∧ j.sblevel = 0 ∧ (quotedScan q j).sqlevel ≠ 1 ∧
      (quotedScan q j).dqlevel ≠ 1) := by
    cases q with
    | single => exact fun h => h.2.2.2.1 rfl
    | double => exact fun h => h.2.2.2.2 rfl
  have blank : ¬ (isSpace c = true ∧ (quotedScan q j).sqlevel = 0 ∧ (quotedScan q j).dqlevel = 0 ∧
      j.level ≤ 1) := by
    cases q with
    | single => exact fun h => absurd h.2.1 (by decide : (1 : UInt8) ≠ 0)
    | double => exact fun h => absurd h.2.2.1 (by decide : (1 : UInt8) ≠ 0)
  have single : ¬ (c = 39 ∧ j.level ≤ 1 ∧ (quotedScan q j).dqlevel = 0) := by
    cases q with
    | single => exact fun h => other h.1
    | double => exact fun h => absurd h.2.2 (by decide : (1 : UInt8) ≠ 0)
  have double : ¬ (c = 34 ∧ j.level ≤ 1 ∧ (quotedScan q j).sqlevel = 0) := by
    cases q with
    | single => exact fun h => absurd h.2.2 (by decide : (1 : UInt8) ≠ 0)
    | double => exact fun h => other h.1
  have json : (quotedScan q j).json = j := by cases q <;> rfl
  have set (j' : JsonState) : { quotedScan q j with json := j' } = quotedScan q j' := by
    cases q <;> rfl
  unfold JsonScan.lex
  dsimp only
  rw [json, if_neg colon, if_neg blank, if_neg single, if_neg double]
  simp only [set]
  unfold stringChar
  split_ifs <;> rfl

theorem stringChar_plain (plain : c ∉ [44, 123, 125, 91, 93]) :
    stringChar c j = (j, .char, .next) := by
  have brackets : c ∉ [123, 125, 91, 93] := fun member => plain (List.mem_cons_of_mem _ member)
  simp only [List.mem_cons, List.not_mem_nil, or_false, not_or] at plain
  simp [stringChar, plain, nestJson_ordinary brackets]

theorem stringChar_comma :
    stringChar 44 j = if j.level = 1 then (j, .skip, .stop) else (j, .char, .next) := by
  simp [stringChar, nestJson]

theorem stringChar_brace (base : j.baselevel = 123) : stringChar 123 j =
    ({ j with cblevel := j.cblevel + 1 }, if j.level = 0 then .skip else .char, .next) := by
  unfold stringChar
  split_ifs <;> simp_all [openJson, nestJson]

theorem stringChar_unbrace (base : j.baselevel = 123) : stringChar 125 j =
    ({ j with cblevel := j.cblevel - 1 }, if j.cblevel ≤ 1 then .skip else .char,
      if j.cblevel ≤ 1 then .push else if j.cblevel - 1 ≤ 1 then .stop else .next) := by
  unfold stringChar
  split_ifs <;> simp_all [nestJson]

theorem stringChar_bracket (base : j.baselevel = 123) : stringChar 91 j =
    ({ j with sblevel := j.sblevel + 1 }, if j.level = 0 then .skip else .char, .next) := by
  unfold stringChar
  split_ifs <;> simp_all [openJson, nestJson]

theorem stringChar_unbracket (base : j.baselevel = 123) : stringChar 93 j =
    ({ j with sblevel := j.sblevel - 1 }, .char, if j.sblevel - 1 = 1 then .stop else .next) := by
  simp [stringChar, base, nestJson]

/-- The rounds for a text between quotes that the loop does not leave, and the characters of it
that are stored. -/
inductive InString : JsonState → List UInt8 → List UInt8 → JsonState → Prop
  | nil (j : JsonState) : InString j [] [] j
  | plain {j j' : JsonState} {c : UInt8} {text kept : List UInt8}
      (ordinary : c ∉ [44, 123, 125, 91, 93]) (rest : InString j text kept j') :
      InString j (c :: text) (c :: kept) j'
  | comma {j j' : JsonState} {text kept : List UInt8} (level : j.level ≠ 1)
      (rest : InString j text kept j') : InString j (44 :: text) (44 :: kept) j'
  | brace {j j' : JsonState} {text kept : List UInt8}
      (rest : InString { j with cblevel := j.cblevel + 1 } text kept j') :
      InString j (123 :: text) (if j.level = 0 then kept else 123 :: kept) j'
  | unbrace {j j' : JsonState} {text kept : List UInt8} (high : ¬ j.cblevel ≤ 1)
      (high' : ¬ j.cblevel - 1 ≤ 1)
      (rest : InString { j with cblevel := j.cblevel - 1 } text kept j') :
      InString j (125 :: text) (125 :: kept) j'
  | bracket {j j' : JsonState} {text kept : List UInt8}
      (rest : InString { j with sblevel := j.sblevel + 1 } text kept j') :
      InString j (91 :: text) (if j.level = 0 then kept else 91 :: kept) j'
  | unbracket {j j' : JsonState} {text kept : List UInt8} (other : j.sblevel - 1 ≠ 1)
      (rest : InString { j with sblevel := j.sblevel - 1 } text kept j') :
      InString j (93 :: text) (93 :: kept) j'

theorem InString.sublist {j' : JsonState} {text kept : List UInt8} (h : InString j text kept j') :
    kept.Sublist text := by
  induction h with
  | nil j => exact .refl _
  | plain _ _ ih => exact ih.cons_cons _
  | comma _ _ ih => exact ih.cons_cons _
  | brace _ ih =>
      split
      · exact ih.cons _
      · exact ih.cons_cons _
  | unbrace _ _ _ ih => exact ih.cons_cons _
  | bracket _ ih =>
      split
      · exact ih.cons _
      · exact ih.cons_cons _
  | unbracket _ _ ih => exact ih.cons_cons _

theorem InString.same {j' : JsonState} {text kept : List UInt8} (h : InString j text kept j') :
    j'.baselevel = j.baselevel ∧ j'.counter = j.counter := by
  induction h with
  | nil j => exact ⟨rfl, rfl⟩
  | plain _ _ ih => exact ih
  | comma _ _ ih => exact ih
  | brace _ ih => exact ih
  | unbrace _ _ _ ih => exact ih
  | bracket _ ih => exact ih
  | unbracket _ _ ih => exact ih

/-! ## Runs -/

variable {v w : JsonView} {text back left kept : List UInt8} {j' : JsonState}

def Stores (q : JsonQuote) (back : List UInt8) (j : JsonState) (text kept : List UInt8)
    (j' : JsonState) : Prop :=
  ∀ v : JsonView, v.scan = quotedScan q j → (∀ b ∈ text, b ≠ 0 ∧ b ≠ q.char) → 0 < v.valueLen →
    v.run (text ++ back) = JsonView.run { v.stores kept with scan := quotedScan q j' } back

theorem Stores.char {i : JsonState} (char : stringChar c j = (i, .char, .next))
    (rest : Stores q back i text kept j') : Stores q back j (c :: text) (c :: kept) j' := by
  intro v scan inside room
  obtain ⟨nonzero, other⟩ := inside c (by simp)
  have lex : v.scan.lex c = (quotedScan q i, .char, .next) := by rw [scan, lex_string other, char]
  have next := rest { v.store c with scan := quotedScan q i } rfl
    (fun b member => inside b (by simp [member])) (store_valueLen v c room)
  rw [List.cons_append, run_next nonzero lex room, feed_char lex, next, stores_cons, stores_setScan]

theorem Stores.skip {i : JsonState} (char : stringChar c j = (i, .skip, .next))
    (rest : Stores q back i text kept j') : Stores q back j (c :: text) kept j' := by
  intro v scan inside room
  obtain ⟨nonzero, other⟩ := inside c (by simp)
  have lex : v.scan.lex c = (quotedScan q i, .skip, .next) := by rw [scan, lex_string other, char]
  have next := rest { v with scan := quotedScan q i } rfl
    (fun b member => inside b (by simp [member])) room
  rw [List.cons_append, run_next nonzero lex room, feed_skip lex, next, stores_setScan]

theorem InString.stores (h : InString j text kept j') (base : j.baselevel = 123) :
    Stores q back j text kept j' := by
  induction h with
  | nil j =>
      intro v scan _ _
      rw [← scan]
      rfl
  | plain ordinary _ ih => exact .char (stringChar_plain ordinary) (ih base)
  | comma level _ ih => exact .char (by rw [stringChar_comma, if_neg level]) (ih base)
  | @brace j _ _ _ _ ih =>
      have char := stringChar_brace base
      split
      · rename_i level
        exact .skip (by rw [char, if_pos level]) (ih base)
      · rename_i level
        exact .char (by rw [char, if_neg level]) (ih base)
  | unbrace high high' _ ih =>
      exact .char (by rw [stringChar_unbrace base, if_neg high, if_neg high, if_neg high']) (ih base)
  | bracket _ ih =>
      have char := stringChar_bracket base
      split
      · rename_i level
        exact .skip (by rw [char, if_pos level]) (ih base)
      · rename_i level
        exact .char (by rw [char, if_neg level]) (ih base)
  | unbracket other _ ih =>
      exact .char (by rw [stringChar_unbracket base, if_neg other]) (ih base)

theorem run_length (v : JsonView) (text : List UInt8) {left : List UInt8}
    (h : (v.run text).2 = some left) : left.length ≤ text.length := by
  fun_induction JsonView.run v text with
  | case1 v => cases h
  | case2 v text =>
      cases h
      exact Nat.le_succ _
  | case3 v c text nonzero move room ih => exact Nat.le_succ_of_le (ih h)
  | case4 v c text nonzero move full =>
      cases h
      exact Nat.le_succ _
  | case5 v c text nonzero move =>
      cases h
      exact Nat.le_succ _
  | case6 v c text nonzero move =>
      cases h
      exact le_rfl

theorem run_goes_on (nonzero : c ≠ 0) (room : 0 < v.valueLen) (h : v.run (c :: text) = (w, some left))
    (short : left.length < text.length) :
    (v.scan.lex c).2.2 = .next ∧ (v.feed c).run text = (w, some left) := by
  rw [JsonView.run, if_neg nonzero] at h
  split at h
  · rw [if_pos (feed_valueLen v c room)] at h
    exact ⟨by assumption, h⟩
  · cases h
    exact absurd short (Nat.lt_irrefl _)
  · cases h
    exact absurd (Nat.lt_of_succ_lt short) (Nat.lt_irrefl _)

theorem inString_of_run (base : j.baselevel = 123) (scan : v.scan = quotedScan q j)
    (inside : ∀ b ∈ text, b ≠ 0 ∧ b ≠ q.char) (room : 0 < v.valueLen)
    (h : v.run (text ++ back) = (w, some left)) (short : left.length < back.length) :
    ∃ kept j', InString j text kept j' := by
  induction text generalizing v j with
  | nil => exact ⟨[], j, .nil j⟩
  | cons c text ih =>
      obtain ⟨nonzero, other⟩ := inside c (by simp)
      have less : left.length < (text ++ back).length := by
        rw [List.length_append]
        omega
      obtain ⟨move, rest⟩ := run_goes_on nonzero room h less
      rw [scan, lex_string other] at move
      have fed : (v.feed c).scan = quotedScan q (stringChar c j).1 := by
        rw [JsonView.feed, JsonView.after, scan, lex_string other]
      have later (same : (stringChar c j).1.baselevel = 123) :
          ∃ kept j', InString (stringChar c j).1 text kept j' :=
        ih same fed (fun b member => inside b (by simp [member])) (feed_valueLen v c room) rest
      by_cases ordinary : c ∉ [44, 123, 125, 91, 93]
      · rw [stringChar_plain ordinary] at later
        obtain ⟨kept, j', rest⟩ := later base
        exact ⟨_, _, .plain ordinary rest⟩
      · simp only [List.mem_cons, List.not_mem_nil, or_false, not_not] at ordinary
        rcases ordinary with rfl | rfl | rfl | rfl | rfl
        · rw [stringChar_comma] at move later
          by_cases level : j.level = 1
          · rw [if_pos level] at move
            cases move
          · rw [if_neg level] at later
            obtain ⟨kept, j', rest⟩ := later base
            exact ⟨_, _, .comma level rest⟩
        · rw [stringChar_brace base] at later
          obtain ⟨kept, j', rest⟩ := later base
          exact ⟨_, _, .brace rest⟩
        · rw [stringChar_unbrace base] at move later
          obtain ⟨kept, j', rest⟩ := later base
          by_cases high : j.cblevel ≤ 1
          · rw [if_pos high, if_pos high] at move
            cases move
          · by_cases high' : j.cblevel - 1 ≤ 1
            · rw [if_neg high, if_neg high, if_pos high'] at move
              cases move
            · exact ⟨_, _, .unbrace high high' rest⟩
        · rw [stringChar_bracket base] at later
          obtain ⟨kept, j', rest⟩ := later base
          exact ⟨_, _, .bracket rest⟩
        · rw [stringChar_unbracket base] at move later
          obtain ⟨kept, j', rest⟩ := later base
          by_cases one : j.sblevel - 1 = 1
          · rw [if_pos one] at move
            cases move
          · exact ⟨_, _, .unbracket one rest⟩

/-! ## Strings that change nothing -/

/-- No braces; square brackets in pairs, one inside of no other; commas in such a pair only. -/
inductive Paired : Bool → List UInt8 → Prop
  | nil : Paired false []
  | plain {inside : Bool} {c : UInt8} {text : List UInt8} (ordinary : c ∉ [44, 123, 125, 91, 93])
      (rest : Paired inside text) : Paired inside (c :: text)
  | comma {text : List UInt8} (rest : Paired true text) : Paired true (44 :: text)
  | bracket {text : List UInt8} (rest : Paired true text) : Paired false (91 :: text)
  | unbracket {text : List UInt8} (rest : Paired false text) : Paired true (93 :: text)

def pairLevel : Bool → UInt8
  | true => 1
  | false => 0

theorem Paired.inString {inside : Bool} (h : Paired inside text) :
    InString ⟨1, pairLevel inside, 123, 0⟩ text text (curlyJson 1) := by
  induction h with
  | nil => exact .nil _
  | plain ordinary _ ih => exact .plain ordinary ih
  | comma _ ih => exact .comma (by decide : (1 + 1 : UInt8) ≠ 1) ih
  | bracket _ ih =>
      have bracket := InString.bracket (j := ⟨1, 0, 123, 0⟩) ih
      rwa [if_neg (show JsonState.level ⟨1, 0, 123, 0⟩ ≠ 0 from (by decide : (1 + 0 : UInt8) ≠ 0))]
        at bracket
  | unbracket _ ih =>
      have back : (1 - 1 : UInt8) = pairLevel false := rfl
      refine .unbracket (j := ⟨1, 1, 123, 0⟩) (by decide : (1 - 1 : UInt8) ≠ 1) ?_
      dsimp only
      rw [back]
      exact ih

theorem InString.braced (h : InString j text kept j') (deep : 2 ≤ j.cblevel.toNat)
    (short : j.cblevel.toNat + text.length < 256) : 2 ≤ j'.cblevel.toNat := by
  induction h with
  | nil j => exact deep
  | plain _ _ ih => exact ih deep (by rw [List.length_cons] at short; omega)
  | comma _ _ ih => exact ih deep (by rw [List.length_cons] at short; omega)
  | bracket _ ih => exact ih deep (by rw [List.length_cons] at short; dsimp only; omega)
  | unbracket _ _ ih => exact ih deep (by rw [List.length_cons] at short; dsimp only; omega)
  | @brace j _ _ _ _ ih =>
      rw [List.length_cons] at short
      have more : (j.cblevel + 1).toNat = j.cblevel.toNat + 1 := by
        rw [UInt8.toNat_add, UInt8.toNat_one]
        omega
      apply ih
      · rw [more]
        omega
      · rw [more]
        omega
  | @unbrace j _ _ _ high high' _ ih =>
      rw [List.length_cons] at short
      have less := sub_one_toNat (UInt8.pos_iff_ne_zero.mp (UInt8.lt_iff_toNat_lt.mpr
        (show (0 : UInt8).toNat < j.cblevel.toNat by rw [UInt8.toNat_zero]; omega)))
      rw [UInt8.le_iff_toNat_le, UInt8.toNat_one] at high'
      apply ih
      · dsimp only
        omega
      · dsimp only
        omega

/-- Two square brackets deep, or below zero, there is no way back that stores all brackets. -/
theorem InString.loses (h : InString j text kept j') (curly : j.cblevel = 1)
    (deep : 2 ≤ j.sblevel.toNat) (short : text.length < 255) (curly' : j'.cblevel = 1)
    (square' : j'.sblevel = 0) : kept.length < text.length := by
  induction h with
  | nil j =>
      rw [square'] at deep
      exact absurd deep (by decide)
  | plain _ _ ih => exact Nat.succ_lt_succ (ih curly deep (Nat.lt_of_succ_lt short) curly' square')
  | comma _ _ ih => exact Nat.succ_lt_succ (ih curly deep (Nat.lt_of_succ_lt short) curly' square')
  | @brace j _ _ _ rest _ =>
      rw [List.length_cons] at short
      have two : (j.cblevel + 1).toNat = 2 := by rw [curly]; rfl
      have braced := rest.braced two.ge (by rw [two]; omega)
      rw [curly'] at braced
      exact absurd braced (by decide)
  | unbrace high _ _ _ => exact absurd (by rw [curly]; decide) high
  | @bracket j _ _ kept rest ih =>
      by_cases last : j.sblevel.toNat = 255
      · have level : j.level = 0 := by
          rw [JsonState.level, curly, show j.sblevel = 255 from UInt8.toNat_inj.mp last]
          rfl
        rw [if_pos level]
        exact Nat.lt_succ_of_le rest.sublist.length_le
      · have more : (j.sblevel + 1).toNat = j.sblevel.toNat + 1 := by
          have := j.sblevel.toNat_lt
          rw [UInt8.toNat_add, UInt8.toNat_one]
          omega
        have shorter := ih curly (by rw [more]; omega) (Nat.lt_of_succ_lt short) curly' square'
        split
        · exact Nat.lt_succ_of_lt shorter
        · exact Nat.succ_lt_succ shorter
  | @unbracket j _ _ _ other _ ih =>
      have less := sub_one_toNat (UInt8.pos_iff_ne_zero.mp (UInt8.lt_iff_toNat_lt.mpr
        (show (0 : UInt8).toNat < j.sblevel.toNat by rw [UInt8.toNat_zero]; omega)))
      have three : (j.sblevel - 1).toNat ≠ 1 := fun one => other (UInt8.toNat_inj.mp one)
      apply Nat.succ_lt_succ
      apply ih curly _ (Nat.lt_of_succ_lt short) curly' square'
      dsimp only
      omega

theorem InString.paired (h : InString j text kept j') {inside : Bool} (curly : j.cblevel = 1)
    (square : j.sblevel = pairLevel inside) (short : text.length < 255) (curly' : j'.cblevel = 1)
    (square' : j'.sblevel = 0) (all : kept.length = text.length) : Paired inside text := by
  have less {n : Nat} (short : n + 1 < 255) : n < 255 := Nat.lt_of_succ_lt short
  induction h generalizing inside with
  | nil j =>
      cases inside with
      | true =>
          rw [square] at square'
          cases square'
      | false => exact .nil
  | plain ordinary _ ih =>
      exact .plain ordinary (ih curly square (less short) curly' square' (Nat.succ.inj all))
  | comma level _ ih =>
      cases inside with
      | true => exact .comma (ih curly square (less short) curly' square' (Nat.succ.inj all))
      | false =>
          refine absurd ?_ level
          rw [JsonState.level, curly, square]
          rfl
  | @brace j _ _ _ rest _ =>
      rw [List.length_cons] at short
      have two : (j.cblevel + 1).toNat = 2 := by rw [curly]; rfl
      have braced := rest.braced two.ge (by rw [two]; omega)
      rw [curly'] at braced
      exact absurd braced (by decide)
  | unbrace high _ _ _ => exact absurd (by rw [curly]; decide) high
  | @bracket j _ _ kept rest ih =>
      have level : j.level ≠ 0 := by
        rw [JsonState.level, curly, square]
        cases inside <;> decide
      rw [if_neg level] at all
      cases inside with
      | false =>
          apply Paired.bracket
          apply ih curly _ (less short) curly' square' (Nat.succ.inj all)
          dsimp only
          rw [square]
          rfl
      | true =>
          have deep : (j.sblevel + 1).toNat = 2 := by rw [square]; rfl
          have lost := rest.loses curly deep.ge (less short) curly' square'
          exact absurd (Nat.succ.inj all) lost.ne
  | @unbracket j _ _ _ other rest ih =>
      cases inside with
      | true =>
          apply Paired.unbracket
          apply ih curly _ (less short) curly' square' (Nat.succ.inj all)
          dsimp only
          rw [square]
          rfl
      | false =>
          have deep : (j.sblevel - 1).toNat = 255 := by rw [square]; rfl
          have lost := rest.loses curly (by rw [deep]; decide) (less short) curly' square'
          exact absurd (Nat.succ.inj all) lost.ne

/-! ## Members -/

def JsonToken.Written : JsonToken → Prop
  | .quoted q text => ∀ b ∈ text, b ≠ 0 ∧ b ≠ q.char
  | .bare text => (JsonToken.bare text).Flat ∧ (JsonToken.bare text).Keyable

def JsonToken.Safe : JsonToken → Prop
  | .quoted _ text => Paired false text
  | .bare _ => True

structure JsonMember.Written (m : JsonMember) : Prop where
  lead : Blanks m.lead
  gap : Blanks m.gap
  space : Blanks m.space
  trail : Blanks m.trail
  key : m.key.Flat ∧ m.key.Keyable
  value : m.value.Written

structure JsonMember.Short (nl vl : UInt8) (m : JsonMember) : Prop where
  key : m.key.content.length < nl.toNat
  value : m.value.content.length < vl.toNat

variable {nl vl : UInt8} {tail : List GetByte} {e : GetByte} {r : Reader} {m : JsonMember}

theorem quotedMember_run (written : m.Written) (value : m.value = .quoted q text) (named : 0 < nl)
    (valued : 0 < vl) (rest : List UInt8) :
    (JsonView.start nl vl (curlyJson 1)).run (m.source ++ rest) =
      JsonView.run { keyView nl vl (curlyJson 1) m.key.content with
        scan := quotedScan q (curlyJson 1) } (text ++ q.char :: (m.trail ++ rest)) := by
  have quiet : JsonScan.Quiet ⟨0, 0, curlyJson 1⟩ := ⟨rfl, rfl⟩
  have level : (curlyJson 1).level ≤ 1 := by decide
  have nonzero : q.char ≠ 0 := by cases q <;> decide
  have opening := lex_open (s := ⟨0, 0, curlyJson 1⟩) q quiet level
  have source : m.source ++ rest = m.lead ++ (m.key.source ++ (m.gap ++ 58 :: (m.space ++
      q.char :: (text ++ q.char :: (m.trail ++ rest))))) := by
    simp [JsonMember.source, value, show (JsonToken.quoted q text).source =
      q.char :: text ++ [q.char] from rfl]
  rw [source, run_blanks (v := .start nl vl (curlyJson 1)) written.lead quiet level valued,
    key_run written.key.1 written.key.2 written.gap named valued rfl rfl,
    run_blanks (v := keyView nl vl (curlyJson 1) m.key.content) written.space quiet level valued,
    run_next (v := keyView nl vl (curlyJson 1) m.key.content) nonzero opening valued,
    feed_skip (v := keyView nl vl (curlyJson 1) m.key.content) opening]
  rfl

theorem closing_run (scan : v.scan = quotedScan q j) {trail : List UInt8} (blanks : Blanks trail)
    (room : 0 < v.valueLen) (rest : List UInt8) : ∃ w : JsonView,
      v.run (q.char :: (trail ++ rest)) = w.run rest ∧ w.scan.json = j ∧ 0 < w.valueLen ∧
        (j.level ≤ 1 → w = { v with scan := ⟨0, 0, j⟩ }) := by
  have nonzero : q.char ≠ 0 := by cases q <;> decide
  have json : v.scan.json = j := by
    rw [scan]
    cases q <;> rfl
  by_cases level : j.level ≤ 1
  · have quiet : JsonScan.Quiet ⟨0, 0, j⟩ := ⟨rfl, rfl⟩
    have lex : v.scan.lex q.char = (⟨0, 0, j⟩, .skip, .next) := by
      rw [scan]
      exact lex_close q quiet level
    refine ⟨{ v with scan := ⟨0, 0, j⟩ }, ?_, rfl, room, fun _ => rfl⟩
    rw [run_next nonzero lex room, feed_skip lex,
      run_blanks (v := { v with scan := ⟨0, 0, j⟩ }) blanks quiet level room]
  · have plain : ∀ b ∈ q.char :: trail, b ≠ 0 ∧ b ∉ [123, 125, 91, 93] := by
      intro b member
      cases List.mem_cons.mp member with
      | inl quote =>
          subst quote
          cases q <;> exact ⟨by decide, by decide⟩
      | inr blank =>
          have space := blanks b blank
          constructor
          · rintro rfl
            cases space
          · intro bracket
            simp only [List.mem_cons, List.not_mem_nil, or_false] at bracket
            rcases bracket with rfl | rfl | rfl | rfl <;> cases space
    refine ⟨v.stores (q.char :: trail), ?_, ?_, stores_valueLen v _ room, fun low => absurd low level⟩
    · rw [← List.cons_append, run_chars _ room]
      intro b member
      obtain ⟨nonzero, ordinary⟩ := plain b member
      refine ⟨nonzero, ?_⟩
      rw [lex_deep (by rw [json]; exact UInt8.not_le.mp level) (fun h => ordinary (by simp [h.1]))
        fun h => ordinary (by simp [h.1]), nestJson_ordinary ordinary]
      rfl
    · rw [stores_scan, json]

def Pushes (s : JsonScan) (p : JsonScan × JsonSym × JsonMove) : Prop :=
  p.2.2 = .push → s.json.cblevel ≤ 1 ∧ p.1.json.cblevel = s.json.cblevel - 1 ∧
    p.1.json.sblevel = s.json.sblevel

theorem Pushes.branch {s : JsonScan} {test : Prop} [Decidable test]
    {p p' : JsonScan × JsonSym × JsonMove} (yes : test → Pushes s p) (no : Pushes s p') :
    Pushes s (if test then p else p') := by
  split
  · exact yes (by assumption)
  · exact no

theorem lex_push (s : JsonScan) (c : UInt8) : Pushes s (s.lex c) := by
  unfold JsonScan.lex
  dsimp only
  iterate 6
    apply Pushes.branch
    · exact fun _ push => nomatch push
  apply Pushes.branch
  · exact fun brace _ => ⟨brace.2.1, rfl, rfl⟩
  iterate 2
    apply Pushes.branch
    · exact fun _ push => nomatch push
  cases (nestJson c s.json).2 with
  | true => exact fun push => nomatch push
  | false => exact fun push => nomatch push

theorem run_all (room : 0 < v.valueLen) (h : v.run text = (w, some left))
    (all : left.length = text.length) :
    v.scan.json.cblevel ≤ 1 ∧ w.scan.json.cblevel = v.scan.json.cblevel - 1 ∧
      w.scan.json.sblevel = v.scan.json.sblevel := by
  cases text with
  | nil => cases h
  | cons c text =>
      have more : text.length ≠ (c :: text).length := (Nat.lt_succ_self _).ne
      rw [JsonView.run] at h
      split at h
      · cases h
        exact absurd all more
      · split at h
        · rw [if_pos (feed_valueLen v c room)] at h
          have less := run_length (v.feed c) text (by rw [h])
          rw [all] at less
          exact absurd less (Nat.not_succ_le_self _)
        · cases h
          exact absurd all more
        · cases h
          rename_i push
          exact lex_push v.scan c push

theorem lex_comma_json (s : JsonScan) : (s.lex 44).1.json = s.json := by
  simp [JsonScan.lex, nestJson, isSpace]
  split_ifs <;> rfl

/-- What stands behind a member, of which the call leaves `left`. -/
structure Separates (sep left : List UInt8) (level : UInt8) : Prop where
  run : ∀ v : JsonView, v.scan = ⟨0, 0, curlyJson 1⟩ →
    v.run sep = ({ v with scan := ⟨0, 0, curlyJson level⟩ }, some left)
  level : ∀ (v w : JsonView) (left' : List UInt8), 0 < v.valueLen → v.run sep = (w, some left') →
    left'.length = left.length → w.scan.json.cblevel = level → w.scan.json.sblevel = 0 →
    v.scan.json.cblevel = 1 ∧ v.scan.json.sblevel = 0
  length : left.length ≤ sep.length
  some : left ≠ []

theorem separates_brace (after : List UInt8) : Separates (125 :: after) (125 :: after) 0 where
  run v scan := close_run 1 (by decide) scan after
  level := by
    intro v w left' room h all curly square
    obtain ⟨-, curly', square'⟩ := run_all room h all
    refine ⟨?_, by rw [← square', square]⟩
    rw [← sub_add_cancel v.scan.json.cblevel 1, ← curly', curly]
    rfl
  length := le_rfl
  some := List.cons_ne_nil _ _

theorem separates_comma {rest : List UInt8} (some : rest ≠ []) : Separates (44 :: rest) rest 1 where
  run v scan := by
    rw [comma_run scan rest, ← scan]
  level := by
    intro v w left' room h all curly square
    have more : (44 :: rest).length ≠ rest.length := (Nat.lt_succ_self _).ne'
    rw [JsonView.run, if_neg (by decide)] at h
    split at h
    · rw [if_pos (feed_valueLen v 44 room)] at h
      -- Only a brace at the start of the rest could leave all of it.
      obtain ⟨low, curly', -⟩ := run_all (feed_valueLen v 44 room) h all
      have two : (v.feed 44).scan.json.cblevel = 2 := by
        rw [← sub_add_cancel (v.feed 44).scan.json.cblevel 1, ← curly', curly]
        rfl
      rw [two] at low
      exact absurd low (by decide)
    · cases h
      have json : (v.feed 44).scan.json = v.scan.json := lex_comma_json v.scan
      rw [json] at curly square
      exact ⟨curly, square⟩
    · cases h
      exact absurd all more
  length := Nat.le_succ _
  some := some

theorem JsonMember.Short.named (short : m.Short nl vl) : 0 < nl :=
  UInt8.lt_iff_toNat_lt.mpr (Nat.zero_lt_of_lt short.key)

theorem JsonMember.Short.valued (short : m.Short nl vl) : 0 < vl :=
  UInt8.lt_iff_toNat_lt.mpr (Nat.zero_lt_of_lt short.value)

theorem JsonMember.Short.take_key (short : m.Short nl vl) :
    m.key.content.take (nl.toNat - 1) = m.key.content :=
  List.take_of_length_le (Nat.le_sub_one_of_lt short.key)

theorem JsonMember.Short.take_value (short : m.Short nl vl) :
    m.value.content.take (vl.toNat - 1) = m.value.content :=
  List.take_of_length_le (Nat.le_sub_one_of_lt short.value)

variable {sep : List UInt8} {level : UInt8} {body : List UInt8}

theorem string_call (written : m.Written) (value : m.value = .quoted q text)
    (short : m.Short nl vl) (inside : InString (curlyJson 1) text kept (curlyJson 1))
    (separates : Separates sep left level) (comes : Comes body tail e r)
    (same : (JsonView.start nl vl j).run body =
      (JsonView.start nl vl (curlyJson 1)).run (m.source ++ sep)) :
    ∃ r', Comes left tail e r' ∧
      JsonCall nl vl r j ⟨1, m.key.content, kept.take (vl.toNat - 1)⟩ r' (curlyJson level) := by
  have plain : ∀ b ∈ text, b ≠ 0 ∧ b ≠ q.char := by
    have token := written.value
    rw [value] at token
    exact token
  have valued := short.valued
  rw [quotedMember_run written value short.named valued,
    inside.stores rfl { keyView nl vl (curlyJson 1) m.key.content with
      scan := quotedScan q (curlyJson 1) } rfl plain valued, stores_setScan] at same
  obtain ⟨n, room, stored⟩ :=
    stores_value (v := keyView nl vl (curlyJson 1) m.key.content) rfl valued kept
  rw [stored] at same
  obtain ⟨w, closing, -, -, low⟩ := closing_run (q := q) (j := curlyJson 1)
    (v := ⟨m.key.content.take (nl.toNat - 1), 0, kept.take (vl.toNat - 1), n, 58,
      quotedScan q (curlyJson 1)⟩) rfl written.trail room sep
  have closed := low (by decide)
  have ends := separates.run w (by rw [closed])
  rw [closed] at closing ends
  obtain ⟨r', comes', call⟩ := keyed_call written.key.1.nonzero
    (fun b member => (plain b (inside.sublist.subset member)).1) comes
    (same.trans (closing.trans ends))
  rw [short.take_key] at call
  exact ⟨r', comes', call⟩

theorem safe_call (written : m.Written) (short : m.Short nl vl) (safe : m.value.Safe)
    (separates : Separates sep left level) (comes : Comes body tail e r)
    (same : (JsonView.start nl vl j).run body =
      (JsonView.start nl vl (curlyJson 1)).run (m.source ++ sep)) :
    ∃ r', Comes left tail e r' ∧
      JsonCall nl vl r j ⟨1, m.key.content, m.value.content⟩ r' (curlyJson level) := by
  cases value : m.value with
  | quoted q text =>
      rw [value] at safe
      obtain ⟨r', comes', call⟩ := string_call written value short safe.inString separates comes same
      have whole := short.take_value
      rw [value] at whole
      rw [show text.take (vl.toNat - 1) = text from whole] at call
      exact ⟨r', comes', call⟩
  | bare text =>
      have flat : m.Flat := by
        have token := written.value
        rw [value] at token
        exact ⟨written.lead, written.gap, written.space, written.trail, written.key,
          by rw [value]; exact token⟩
      obtain ⟨r', comes', call⟩ := member_call flat short.named short.valued comes same
        fun n _ => separates.run _ rfl
      rw [JsonMember.seen, short.take_key, short.take_value, value] at call
      exact ⟨r', comes', call⟩

theorem finishJson_levels (nl vl : UInt8) (t : JsonLoop) : (finishJson nl vl t).reader = t.reader ∧
    (finishJson nl vl t).json.cblevel = t.json.cblevel ∧
      (finishJson nl vl t).json.sblevel = t.json.sblevel := by
  unfold finishJson
  dsimp only
  split
  · exact ⟨rfl, rfl, rfl⟩
  · exact ⟨rfl, rfl, rfl⟩

theorem Comes.text_eq {left' : List UInt8} (h : Comes left tail e r) (h' : Comes left' tail e r) :
    left = left' := by
  have same := h.pending.symm.trans h'.pending
  exact List.map_injective_iff.mpr (fun _ _ => GetByte.byte.inj) (List.append_cancel_right same)

theorem run_of_call {y : JsonSeen} {r' : Reader} {j' : JsonState} (comes : Comes body [] e r)
    (final : e.ret ≤ 0) (call : JsonCall nl vl r j y r' j') (comes' : Comes left [] e r')
    (more : left ≠ []) : ∃ w, (JsonView.start nl vl j).run body = (w, some left) ∧
      w.scan.json.cblevel = j'.cblevel ∧ w.scan.json.sblevel = j'.sblevel := by
  obtain ⟨w, rest⟩ : ∃ w, w = ((JsonView.start nl vl j).run body).1 := ⟨_, rfl⟩
  obtain ⟨r₂, comes₂, runs⟩ := parseJSONParam_run comes (Prod.ext rest.symm rfl)
    fun _ => ⟨rfl, final⟩
  obtain ⟨p, returns, -, -, -, reader, json⟩ := call (fun _ => 0) fun _ => 0
  obtain ⟨ret, c, returns'⟩ := runs (fun _ => 0) fun _ => 0
  obtain rfl := returns.unique returns'
  obtain ⟨reader', curly, square⟩ := finishJson_levels nl vl
    (w.loop (fun _ => 0) (fun _ => 0) ret c r₂)
  rw [reader] at reader'
  rw [json] at curly square
  have same : ((JsonView.start nl vl j).run body).2.getD [] = left := by
    rw [reader'] at comes'
    exact comes₂.text_eq comes'
  refine ⟨w, Prod.ext rest.symm ?_, curly.symm, square.symm⟩
  cases run : ((JsonView.start nl vl j).run body).2 with
  | none =>
      rw [run] at same
      exact absurd same.symm more
  | some left' =>
      rw [run] at same
      rw [← same]
      rfl

theorem inString_of_levels (scan : v.scan = quotedScan q (curlyJson 1))
    (plain : ∀ b ∈ text, b ≠ 0 ∧ b ≠ q.char) (room : 0 < v.valueLen) {trail : List UInt8}
    (blanks : Blanks trail) (separates : Separates sep left level)
    (h : v.run (text ++ q.char :: (trail ++ sep)) = (w, some left))
    (curly : w.scan.json.cblevel = level) (square : w.scan.json.sblevel = 0) :
    ∃ kept, InString (curlyJson 1) text kept (curlyJson 1) := by
  have less : left.length < (q.char :: (trail ++ sep)).length := by
    have := separates.length
    rw [List.length_cons, List.length_append]
    omega
  obtain ⟨kept, j', inside⟩ := inString_of_run rfl scan plain room h less
  obtain ⟨w', closing, json, room', -⟩ := closing_run (j := j')
    (v := { v.stores kept with scan := quotedScan q j' }) rfl blanks (stores_valueLen v kept room) sep
  rw [inside.stores rfl v scan plain room, closing] at h
  obtain ⟨curly', square'⟩ := separates.level w' w left room' h rfl curly square
  rw [json] at curly' square'
  obtain ⟨base, counter⟩ := inside.same
  have back : j' = curlyJson 1 :=
    calc j' = ⟨j'.cblevel, j'.sblevel, j'.baselevel, j'.counter⟩ := rfl
      _ = curlyJson 1 := by
        rw [curly', square', base, counter]
        rfl
  rw [back] at inside
  exact ⟨kept, inside⟩

theorem call_safe (written : m.Written) (short : m.Short nl vl) (final : e.ret ≤ 0)
    (separates : Separates sep left level) (comes : Comes body [] e r)
    (same : (JsonView.start nl vl j).run body =
      (JsonView.start nl vl (curlyJson 1)).run (m.source ++ sep)) {r' : Reader} {j' : JsonState}
    (call : JsonCall nl vl r j ⟨1, m.key.content, m.value.content⟩ r' j')
    (curly : j'.cblevel = level) (square : j'.sblevel = 0) (comes' : Comes left [] e r') :
    m.value.Safe := by
  cases value : m.value with
  | bare text => trivial
  | quoted q text =>
      have plain : ∀ b ∈ text, b ≠ 0 ∧ b ≠ q.char := by
        have token := written.value
        rw [value] at token
        exact token
      have small : text.length < 255 := by
        have fits := short.value
        have := vl.toNat_lt
        rw [value] at fits
        change text.length < vl.toNat at fits
        omega
      obtain ⟨w, run, curly', square'⟩ := run_of_call comes final call comes' separates.some
      rw [same, quotedMember_run written value short.named short.valued] at run
      obtain ⟨kept, inside⟩ := inString_of_levels rfl plain short.valued written.trail separates run
        (curly'.trans curly) (square'.trans square)
      obtain ⟨_, -, call'⟩ := string_call written value short inside separates comes same
      have stored := congrArg JsonSeen.value (call.unique call').1
      rw [value] at stored
      have long : text.length ≤ kept.length := by
        rw [show text = kept.take (vl.toNat - 1) from stored]
        exact List.length_take_le' _ _
      exact inside.paired rfl rfl small rfl rfl (le_antisymm inside.sublist.length_le long)

/-! ## Objects -/

/-- Every call returns the next member as it is written, leaves the levels that a plain value would,
and leaves the members behind it to be read. -/
def Protects (nl vl : UInt8) (e : GetByte) (after : List UInt8) :
    List JsonMember → Reader → JsonState → Prop
  | [], _, _ => True
  | m :: ms, r, j => ∃ r' j', JsonCall nl vl r j ⟨1, m.key.content, m.value.content⟩ r' j' ∧
      j'.cblevel = (if ms = [] then 0 else 1) ∧ j'.sblevel = 0 ∧
      Comes (membersSource ms ++ 125 :: after) [] e r' ∧ Protects nl vl e after ms r' j'

theorem members_protects {ms : List JsonMember} (written : ∀ m ∈ ms, m.Written)
    (short : ∀ m ∈ ms, m.Short nl vl) (final : e.ret ≤ 0) {after : List UInt8}
    (comes : Comes body [] e r)
    (same : (JsonView.start nl vl j).run body =
      (JsonView.start nl vl (curlyJson 1)).run (membersSource ms ++ 125 :: after)) :
    Protects nl vl e after ms r j ↔ ∀ m ∈ ms, m.value.Safe := by
  induction ms generalizing r j body with
  | nil => simp [Protects]
  | cons m ms ih =>
      have written' := written m (by simp)
      have short' := short m (by simp)
      have later (m' : JsonMember) (member : m' ∈ ms) : m' ∈ m :: ms := by simp [member]
      obtain ⟨sep, separates, source⟩ : ∃ sep,
          Separates sep (membersSource ms ++ 125 :: after) (if ms = [] then 0 else 1) ∧
            membersSource (m :: ms) ++ 125 :: after = m.source ++ sep := by
        cases ms with
        | nil => exact ⟨_, separates_brace after, rfl⟩
        | cons m' ms => exact ⟨_, separates_comma (by simp), by simp [membersSource]⟩
      rw [source] at same
      constructor
      · rintro ⟨r', j', call, curly, square, comes', rest⟩
        have safe := call_safe written' short' final separates comes same call curly square comes'
        obtain ⟨r₂, comes₂, call₂⟩ := safe_call written' short' safe separates comes same
        obtain ⟨-, rfl, rfl⟩ := call.unique call₂
        intro m' member
        cases List.mem_cons.mp member with
        | inl here => exact here ▸ safe
        | inr there =>
            have some : ms ≠ [] := List.ne_nil_of_mem there
            rw [if_neg some] at rest
            exact (ih (fun m' member => written m' (later m' member))
              (fun m' member => short m' (later m' member)) comes' rfl).mp rest m' there
      · intro safe
        obtain ⟨r', comes', call⟩ := safe_call written' short' (safe m (by simp)) separates comes same
        refine ⟨r', _, call, rfl, rfl, comes', ?_⟩
        by_cases some : ms = []
        · subst some
          trivial
        · rw [if_neg some]
          exact (ih (fun m' member => written m' (later m' member))
            (fun m' member => short m' (later m' member)) comes' rfl).mpr
              fun m' member => safe m' (later m' member)

structure JsonObject.Written (o : JsonObject) : Prop where
  lead : Blanks o.lead
  space : Blanks o.space
  members : ∀ m ∈ o.members, m.Written

theorem JsonObject.Written.run {o : JsonObject} (written : o.Written) (valued : 0 < vl)
    (after : List UInt8) : (JsonView.start nl vl ⟨0, 0, 0, 0⟩).run (o.source ++ after) =
      (JsonView.start nl vl (curlyJson 1)).run (membersSource o.members ++ 125 :: after) := by
  rw [← object_run written.lead written.space valued]
  simp [JsonObject.source]

/-- The calls for an object whose strings hold any characters but their quotes. -/
theorem quotes_protect_iff {o : JsonObject} (written : o.Written)
    (short : ∀ m ∈ o.members, m.Short nl vl) (final : e.ret ≤ 0) {after : List UInt8}
    (comes : Comes (o.source ++ after) [] e r) :
    Protects nl vl e after o.members r ⟨0, 0, 0, 0⟩ ↔ ∀ m ∈ o.members, m.value.Safe := by
  by_cases some : o.members = []
  · simp [some, Protects]
  · obtain ⟨m, member⟩ := List.exists_mem_of_ne_nil _ some
    exact members_protects written.members short final comes (written.run (short m member).valued after)

def stringObject (text : List UInt8) : JsonObject :=
  ⟨[], [32], [⟨[], .quoted .double (ascii "lamp"), [], [32], .quoted .double text, []⟩,
    ⟨[32], .quoted .double (ascii "on"), [], [32], .quoted .double (ascii "{1}"), [10]⟩]⟩

theorem stringObject_written {text : List UInt8} (plain : ∀ b ∈ text, b ≠ 0 ∧ b ≠ 34) :
    (stringObject text).Written where
  lead := by simp [Blanks, stringObject]
  space := by simp [Blanks, stringObject, isSpace]
  members := by
    intro m member
    simp only [stringObject, List.mem_cons, List.not_mem_nil, or_false] at member
    rcases member with rfl | rfl
    · refine ⟨by simp [Blanks], by simp [Blanks], by simp [Blanks, isSpace], by simp [Blanks],
        ⟨?_, trivial⟩, plain⟩
      exact (by decide : ∀ b ∈ ascii "lamp", b ≠ 0 ∧ b ≠ 34 ∧ b ∉ [44, 123, 125, 91, 93])
    · refine ⟨by simp [Blanks, isSpace], by simp [Blanks], by simp [Blanks, isSpace],
        by simp [Blanks, isSpace], ⟨?_, trivial⟩, ?_⟩
      · exact (by decide : ∀ b ∈ ascii "on", b ≠ 0 ∧ b ≠ 34 ∧ b ∉ [44, 123, 125, 91, 93])
      · exact (by decide : ∀ b ∈ ascii "{1}", b ≠ 0 ∧ b ≠ 34)

theorem stringObject_short {text : List UInt8} (short : text.length < 16) :
    ∀ m ∈ (stringObject text).members, m.Short 8 16 := by
  intro m member
  simp only [stringObject, List.mem_cons, List.not_mem_nil, or_false] at member
  rcases member with rfl | rfl
  · exact ⟨(by decide : (ascii "lamp").length < 8), short⟩
  · exact ⟨(by decide : (ascii "on").length < 8), (by decide : (ascii "{1}").length < 16)⟩

theorem quotes_protect_pair :
    Protects 8 16 .zero [10] (stringObject (ascii "at: [1,2]")).members
        (textReader ((stringObject (ascii "at: [1,2]")).source ++ [10])) ⟨0, 0, 0, 0⟩ ↔
      ∀ m ∈ (stringObject (ascii "at: [1,2]")).members, m.value.Safe :=
  quotes_protect_iff (stringObject_written (by decide)) (stringObject_short (by decide)) (by decide)
    (textReader_comes _)

theorem comma_not_protected :
    ¬ Protects 8 16 .zero [] (stringObject (ascii "on,off")).members
      (textReader ((stringObject (ascii "on,off")).source ++ [])) ⟨0, 0, 0, 0⟩ := by
  have written : (stringObject (ascii "on,off")).Written := stringObject_written (by decide)
  intro protects
  have safe := (members_protects written.members (stringObject_short (by decide))
    (by decide : GetByte.zero.ret ≤ 0) (textReader_comes _) (written.run (by decide) [])).mp protects
  have paired : Paired false (ascii "on,off") := safe _ List.mem_cons_self
  cases paired with
  | plain _ rest =>
      cases rest with
      | plain _ rest =>
          cases rest with
          | plain ordinary _ => exact ordinary (by decide)

end AttoHTTP
