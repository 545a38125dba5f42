import AttoHTTP.Proof.Entry
import AttoHTTP.Proof.ParamTokens

/-!
# Parameters from the query and from the body

The two places `attoHTTPParseParam` reads URL parameters from deliver their text alike, though they
tell its end apart: the body by a read that finds nothing, the query by the terminator of the URL.
-/

namespace AttoHTTP
open Library Comp

variable {cfg : Config}

/-! ## The body -/

def bodyText (raw : List UInt8) : List UInt8 := raw.filter fun b => !(isSpace b || b == 63)

structure BodyHolds (text : List UInt8) (r : Reader) (q : Request) : Prop where
  method : q.method ≠ .get
  final : r.atEnd.ret ≤ 0
  raw : ∃ raw, r.pending = sends raw ∧ bodyText raw = text

theorem bodyParamStep_byte {g : ParamGot} {b : UInt8} {rest : List GetByte}
    (pending : g.reader.pending = .byte b :: rest) :
    bodyParamStep g = (⟨1, b, (readC 0 g.reader).reader, g.request⟩, isSpace b || b == 63) := by
  obtain ⟨ret, c⟩ := readC_byte (c := g.c) pending
  have one : (1 : Int8).toUInt8 = 1 := rfl
  simp only [bodyParamStep, ret, c, one, readC_reader g.c 0]
  rfl

theorem bodyParam_char {raw : List UInt8} {b : UInt8} {text : List UInt8} {r : Reader} (q : Request)
    (pending : r.pending = sends raw) (more : bodyText raw = b :: text) :
    ∃ r' raw', r'.pending = sends raw' ∧ bodyText raw' = text ∧ r'.atEnd = r.atEnd ∧
      ∀ ret c, (doWhile bodyParamStep ⟨ret, c, r, q⟩).Returns ⟨1, b, r', q⟩ := by
  induction raw generalizing r with
  | nil => cases more
  | cons x raw ih =>
      have left := readC_left (c := 0) pending
      have step (ret c : UInt8) := bodyParamStep_byte (g := ⟨ret, c, r, q⟩) pending
      by_cases skip : (isSpace x || x == 63) = true
      · have rest : bodyText raw = b :: text := by
          rw [← more, bodyText, bodyText, List.filter_cons_of_neg (by simp [skip])]
        obtain ⟨r', raw', pending', text', atEnd, run⟩ := ih left.pending rest
        refine ⟨r', raw', pending', text', atEnd.trans (readC_atEnd 0 r), fun ret c => ?_⟩
        rw [doWhile_next (by rw [step, skip]), step]
        exact run 1 x
      · have kept : x :: bodyText raw = b :: text := by
          rw [← more, bodyText, bodyText, List.filter_cons_of_pos (by simp [skip])]
        obtain ⟨rfl, rfl⟩ := List.cons.inj kept
        refine ⟨(readC 0 r).reader, raw, left.pending, rfl, readC_atEnd 0 r, fun ret c => ?_⟩
        rw [doWhile_exit (by rw [step]; simpa using skip), step]

theorem bodyParam_end {raw : List UInt8} {r : Reader} (q : Request) (final : r.atEnd.ret ≤ 0)
    (pending : r.pending = sends raw) (past : bodyText raw = []) (ret c : UInt8) :
    ∃ g, (doWhile bodyParamStep ⟨ret, c, r, q⟩).Returns g ∧ g.ret.toInt8 ≤ 0 ∧
      g.reader.pending = [] ∧ g.reader.atEnd = r.atEnd ∧ g.request = q := by
  induction raw generalizing r ret c with
  | nil =>
      have next : r.next = r.atEnd := next_of_empty pending
      have stop : (bodyParamStep ⟨ret, c, r, q⟩).2 = false := by
        have other : r.atEnd.ret.toUInt8 ≠ 1 := by
          intro one
          have : r.atEnd.ret = 1 := by rw [← Int8.toInt8_toUInt8 r.atEnd.ret, one]; rfl
          rw [this] at final
          exact absurd final (by decide)
        simp [bodyParamStep, next, other]
      refine ⟨_, (doWhile_exit stop).mpr rfl, ?_, ?_, readC_atEnd c r, rfl⟩
      · simpa [bodyParamStep, next] using final
      · simp [bodyParamStep, pending]
  | cons x raw ih =>
      have step := bodyParamStep_byte (g := ⟨ret, c, r, q⟩) pending
      have left := readC_left (c := 0) pending
      have skip : (isSpace x || x == 63) = true := by
        by_contra kept
        rw [bodyText, List.filter_cons_of_pos (by simpa using kept)] at past
        cases past
      have rest : bodyText raw = [] := by
        rw [← past, bodyText, bodyText, List.filter_cons_of_neg (by simp [skip])]
      obtain ⟨g, run, ret', none, atEnd, same⟩ :=
        ih (r := (readC 0 r).reader) (by rwa [readC_atEnd]) left.pending rest 1 x
      refine ⟨g, ?_, ret', none, atEnd.trans (readC_atEnd 0 r), same⟩
      rw [doWhile_next (by rw [step, skip]), step]
      exact run

theorem body_source (cfg : Config) : CharSource cfg BodyHolds (BodyHolds []) where
  char := by
    intro b text r q _ h
    obtain ⟨raw, pending, more⟩ := h.raw
    obtain ⟨r', raw', pending', text', atEnd, run⟩ := bodyParam_char q pending more
    refine ⟨r', q, ⟨h.method, atEnd ▸ h.final, raw', pending', text'⟩, fun c => ?_⟩
    rw [parseURLParamChar, if_neg h.method]
    exact run 0 c
  done := by
    intro r q h c
    obtain ⟨raw, pending, past⟩ := h.raw
    obtain ⟨g, run, ret, none, atEnd, same⟩ := bodyParam_end q h.final pending past 0 c
    refine ⟨g, ?_, fun read => absurd read.1 (Int8.not_lt.mpr ret), ?_⟩
    · rw [parseURLParamChar, if_neg h.method]
      exact run
    · exact ⟨same ▸ h.method, atEnd ▸ h.final, [], none, rfl⟩
  enter h := ⟨h.method, h.final, h.raw⟩

/-! ## The query -/

/-- The places from `origin` on that the URL parameter reader has delivered. -/
def readPlaces (origin stop : Nat) : List UrlPtr :=
  (List.range' origin (stop - origin)).map UrlPtr.url

theorem readPlaces_next {origin k : Nat} (inside : origin ≤ k) :
    readPlaces origin k ++ [.url k] = readPlaces origin (k + 1) := by
  rw [readPlaces, readPlaces, show k + 1 - origin = (k - origin) + 1 by omega, List.range'_concat,
    List.map_append]
  simp [show origin + (k - origin) = k by omega]

/-- The reader is at `k` in a query that starts at `origin`. -/
structure QueryAt (cfg : Config) (origin k : Nat) (q : Request) : Prop where
  method : q.method = .get
  urlParams : q.urlParams = .url k
  urlParamsStart : q.urlParamsStart = k
  paramLog : q.paramLog = readPlaces origin k
  started : origin ≤ k

structure QueryHolds (cfg : Config) (origin stop : Nat) (text : List UInt8) (_ : Reader)
    (q : Request) : Prop where
  reached : ∃ k, QueryAt cfg origin k q ∧ k + text.length = stop ∧
    ∀ i, (h : i < text.length) → q.url (k + i) = text[i]
  ended : q.url stop = 0
  inside : stop < cfg.urlBufferSize

def QueryPast (cfg : Config) (origin stop : Nat) (_ : Reader) (q : Request) : Prop :=
  QueryAt cfg origin (stop + 1) q

theorem QueryAt.read {origin k : Nat} {q : Request} (h : QueryAt cfg origin k q)
    (inside : k < cfg.urlBufferSize) (r : Reader) :
    ∃ q', QueryAt cfg origin (k + 1) q' ∧ q'.url = q.url ∧
      ∀ c, (parseURLParamChar cfg c r q).Returns ⟨1, q.url k, r, q'⟩ := by
  have width := cfg.url_lt
  refine ⟨{ q with
      urlParamsStart := (q.urlParamsStart + 1) % 2 ^ 16
      urlParams := q.urlParams.next
      paramLog := q.paramLog ++ [q.urlParams] }, ⟨h.method, ?_, ?_, ?_, ?_⟩, rfl, fun c => ?_⟩
  · rw [h.urlParams]
    rfl
  · rw [h.urlParamsStart]
    exact Nat.mod_eq_of_lt (by omega)
  · rw [h.urlParams, h.paramLog]
    exact readPlaces_next h.started
  · exact h.started.trans (Nat.le_succ k)
  · rw [parseURLParamChar, if_pos h.method]
    dsimp only
    rw [if_pos (by rwa [h.urlParamsStart]), h.urlParams]
    exact returns_pure.mpr rfl

theorem query_source (cfg : Config) (origin stop : Nat) :
    CharSource cfg (QueryHolds cfg origin stop) (QueryPast cfg origin stop) where
  char := by
    intro b text r q _ h
    obtain ⟨k, here, size, cells⟩ := h.reached
    rw [List.length_cons] at size
    have inside := h.inside
    obtain ⟨q', next, same, run⟩ := here.read (show k < cfg.urlBufferSize by omega) r
    have first : q.url k = b := cells 0 (by simp)
    refine ⟨r, q', ⟨⟨k + 1, next, by omega, fun i le => ?_⟩, same ▸ h.ended, h.inside⟩, ?_⟩
    · have cell := cells (i + 1) (by simpa using le)
      rw [same, show k + 1 + i = k + (i + 1) by omega, cell, List.getElem_cons_succ]
    · rwa [first] at run
  done := by
    intro r q h c
    obtain ⟨k, here, size, -⟩ := h.reached
    obtain rfl : k = stop := size
    obtain ⟨q', next, -, run⟩ := here.read h.inside r
    exact ⟨_, run c, fun read => read.2 h.ended, next⟩
  enter h := ⟨h.reached, h.ended, h.inside⟩

end AttoHTTP
