import AttoHTTP.Proof.Entry
import AttoHTTP.Proof.Site

namespace AttoHTTP
open Library Comp

def slashed (segments : List (List UInt8)) : List UInt8 := segments.flatMap fun s => 47 :: s

def severed (segments : List (List UInt8)) : List UInt8 := segments.flatMap fun s => 0 :: s

def starts : Nat → List (List UInt8) → List Nat
  | _, [] => []
  | pos, s :: segments => (pos + 1) :: starts (pos + 1 + s.length) segments

/-- The parts that start a level, when this much of the URL comes after the path. -/
def levelled (beyond : Nat) : List (List UInt8) → List (List UInt8)
  | [] => []
  | s :: segments =>
      if segments = [] ∧ s.length + beyond = 0 then [] else s :: levelled beyond segments

theorem slashed_pos {segments : List (List UInt8)} (some : segments ≠ []) :
    0 < (slashed segments).length := by
  cases segments with
  | nil => exact absurd rfl some
  | cons s segments => exact Nat.succ_pos _

structure PathLoop.Records (levels : Nat) (t : PathLoop) (found : List Nat) : Prop where
  cmdlvl : t.cmdlvl = min levels ((found.length + 1) / 2)
  idlvl : t.idlvl = min levels (found.length / 2)
  command : ∀ k, t.command k = if k < levels then found[2 * k]? else none
  id : ∀ k, t.id k = if k < levels then found[2 * k + 1]? else none

theorem getElem?_snoc {α : Type} (l : List α) (x : α) (i : Nat) :
    (l ++ [x])[i]? = if i = l.length then some x else l[i]? := by
  by_cases last : i = l.length
  · rw [if_pos last, last]
    simp
  · rw [if_neg last, List.getElem?_append]
    split
    · rfl
    · rw [List.getElem?_eq_none (by simp; omega), List.getElem?_eq_none (by omega)]

theorem PathLoop.Records.set {levels : Nat} {t : PathLoop} {found : List Nat}
    (h : t.Records levels found) (url : Mem) : { t with url := url }.Records levels found :=
  ⟨h.cmdlvl, h.idlvl, h.command, h.id⟩

theorem cutSlash_records {levels ctr : Nat} {t : PathLoop} {found : List Nat}
    (h : t.Records levels found) (more : 1 < ctr) :
    (cutSlash levels ctr t).Records levels (found ++ [t.pos + 1]) := by
  have cmdlvl := h.cmdlvl
  have idlvl := h.idlvl
  have longer : (found ++ [t.pos + 1]).length = found.length + 1 := by simp
  unfold cutSlash
  dsimp only
  rw [if_pos more, if_pos more]
  by_cases command : t.cmdlvl = t.idlvl ∧ t.cmdlvl < levels
  · have even : found.length = 2 * t.cmdlvl := by omega
    rw [if_pos command]
    refine ⟨?_, ?_, fun k => ?_, fun k => ?_⟩
    · dsimp only
      omega
    · dsimp only
      omega
    · simp only [getElem?_snoc, h.command]
      split_ifs <;> first | rfl | omega
    · simp only [getElem?_snoc, h.id]
      split_ifs <;> first | rfl | omega
  · rw [if_neg command]
    by_cases id : t.idlvl < t.cmdlvl ∧ t.idlvl < levels
    · have odd : found.length = 2 * t.idlvl + 1 := by omega
      rw [if_pos id]
      refine ⟨?_, ?_, fun k => ?_, fun k => ?_⟩
      · dsimp only
        omega
      · dsimp only
        omega
      · simp only [getElem?_snoc, h.command]
        split_ifs <;> first | rfl | omega
      · simp only [getElem?_snoc, h.id]
        split_ifs <;> first | rfl | omega
    · have full : 2 * levels ≤ found.length := by omega
      rw [if_neg id]
      refine ⟨?_, ?_, fun k => ?_, fun k => ?_⟩
      · dsimp only
        omega
      · dsimp only
        omega
      · simp only [getElem?_snoc, h.command]
        split_ifs <;> first | rfl | omega
      · simp only [getElem?_snoc, h.id]
        split_ifs <;> first | rfl | omega

theorem cutSlash_last {levels ctr : Nat} {t : PathLoop} {found : List Nat}
    (h : t.Records levels found) (last : ¬ 1 < ctr) : (cutSlash levels ctr t).Records levels found := by
  unfold cutSlash
  dsimp only
  rw [if_neg last, if_neg last]
  repeat' split
  all_goals exact h.set _

/-! ## The whole path -/

theorem put_set_mid (m : Mem) (before after : List UInt8) (b c : UInt8) :
    (m.put (before ++ b :: after)).set before.length c = m.put (before ++ c :: after) := by
  funext i
  rw [Mem.set_apply]
  by_cases here : i = before.length
  · rw [if_pos here, here, Mem.put_of_lt _ (by simp)]
    simp
  · rw [if_neg here]
    simp only [Mem.put, List.getD_eq_getElem?_getD, List.getElem?_append]
    split
    · rfl
    · obtain ⟨j, rest⟩ : ∃ j, i - before.length = j + 1 := ⟨i - before.length - 1, by omega⟩
      rw [rest, List.getElem?_cons_succ, List.getElem?_cons_succ]

theorem put_here (m : Mem) (before after : List UInt8) (b : UInt8) :
    m.put (before ++ b :: after) before.length = b := by
  rw [Mem.put_of_lt _ (by simp)]
  simp

theorem cutPath_part {levels ctr : Nat} {t : PathLoop} {m : Mem} {before part after : List UInt8}
    (plain : ∀ b ∈ part, b ≠ 0 ∧ b ≠ 47) (url : t.url = m.put (before ++ (part ++ after)))
    (pos : t.pos = before.length) :
    cutPath levels (part.length + ctr) t =
      cutPath levels ctr { t with pos := t.pos + part.length } := by
  induction part generalizing t before with
  | nil => simp
  | cons b part ih =>
      have here : t.url t.pos = b := by
        rw [url, pos]
        exact put_here m before (part ++ after) b
      obtain ⟨nonzero, other⟩ := plain b (by simp)
      rw [List.length_cons, show part.length + 1 + ctr = part.length + ctr + 1 by omega, cutPath, here,
        if_neg nonzero, if_neg other]
      have cells : t.url = m.put ((before ++ [b]) ++ (part ++ after)) := by simpa using url
      rw [ih (t := { t with pos := t.pos + 1 }) (fun b member => plain b (by simp [member])) cells
        (by simp [pos])]
      rw [show t.pos + 1 + part.length = t.pos + (part.length + 1) by omega]

theorem cutPath_end {levels ctr : Nat} {t : PathLoop} (zero : t.url t.pos = 0) :
    cutPath levels ctr t = t := by
  cases ctr with
  | zero => rfl
  | succ ctr => rw [cutPath, if_pos zero]

theorem cutPath_slashed {levels : Nat} (beyond : Nat) {m : Mem} {segments : List (List UInt8)}
    {t : PathLoop} {before tail : List UInt8} {found : List Nat}
    (plain : ∀ s ∈ segments, ∀ b ∈ s, b ≠ 0 ∧ b ≠ 47)
    (url : t.url = m.put (before ++ (slashed segments ++ 0 :: tail))) (pos : t.pos = before.length)
    (h : t.Records levels found) :
    (cutPath levels ((slashed segments).length + beyond) t).url =
        m.put (before ++ (severed segments ++ 0 :: tail)) ∧
      (cutPath levels ((slashed segments).length + beyond) t).Records levels
        (found ++ starts before.length (levelled beyond segments)) := by
  induction segments generalizing t before found with
  | nil =>
      have stop : t.url t.pos = 0 := by
        rw [url, pos]
        exact put_here m before tail 0
      rw [cutPath_end stop]
      exact ⟨url, by simpa [levelled, starts] using h⟩
  | cons s segments ih =>
      have source : slashed (s :: segments) = 47 :: (s ++ slashed segments) := rfl
      have slash : t.url t.pos = 47 := by
        rw [url, pos]
        exact put_here m before _ 47
      have ctr : (slashed (s :: segments)).length + beyond =
          s.length + ((slashed segments).length + beyond) + 1 := by
        rw [source, List.length_cons, List.length_append]
        omega
      generalize one : cutSlash levels (s.length + ((slashed segments).length + beyond) + 1) t = u
      have cut := cutSlash_url levels (s.length + ((slashed segments).length + beyond) + 1) t
      rw [one, url, pos, source, List.cons_append, put_set_mid] at cut
      have records : u.Records levels (found ++
          if segments = [] ∧ s.length + beyond = 0 then [] else [before.length + 1]) := by
        by_cases last : segments = [] ∧ s.length + beyond = 0
        · rw [if_pos last, List.append_nil, ← one, last.1]
          have zero := last.2
          refine cutSlash_last h ?_
          rw [show (slashed []).length = 0 from rfl]
          omega
        · rw [if_neg last, ← pos, ← one]
          refine cutSlash_records h ?_
          by_cases none : segments = []
          · have some : s.length + beyond ≠ 0 := fun zero => last ⟨none, zero⟩
            omega
          · have := slashed_pos none
            omega
      have part : u.url = m.put ((before ++ [0]) ++ (s ++ (slashed segments ++ 0 :: tail))) := by
        simpa using cut.1
      have rest : u.url = m.put ((before ++ 0 :: s) ++ (slashed segments ++ 0 :: tail)) := by
        simpa using cut.1
      rw [ctr, cutPath, slash, if_neg (by decide), if_pos rfl, one,
        cutPath_part (t := { u with pos := u.pos + 1 }) (plain s (by simp)) part (by simp [cut.2])]
      obtain ⟨url', records'⟩ := ih (t := { u with pos := u.pos + 1 + s.length })
        (fun s member => plain s (by simp [member])) rest (by simp [cut.2]; omega)
        ⟨records.1, records.2, records.3, records.4⟩
      refine ⟨by simpa [severed] using url', ?_⟩
      have place : (before ++ 0 :: s).length = before.length + 1 + s.length := by
        simp
        omega
      rw [place] at records'
      rw [levelled]
      by_cases last : segments = [] ∧ s.length + beyond = 0
      · rw [if_pos last] at records' ⊢
        rw [last.1] at records' ⊢
        simpa [levelled, starts] using records'
      · rw [if_neg last] at records' ⊢
        simpa [starts] using records'

/-! ## What the callback is given -/

def IsString (m : Mem) (text : List UInt8) : Prop := m.bytes (text.length + 1) = text ++ [0]

theorem isString_put (m : Mem) (before text after : List UInt8) :
    IsString ((m.put (before ++ (text ++ 0 :: after))).skip before.length) text := by
  have whole := Mem.bytes_put_append (m.skip before.length) (text ++ [0]) after
  rw [List.append_assoc, List.length_append] at whole
  rw [IsString, Mem.skip_put]
  exact whole

theorem IsString.cstr {m : Mem} {text : List UInt8} (h : IsString m text)
    (nonzero : ∀ b ∈ text, b ≠ 0) (n : Nat) : m.cstr n = text.take n := by
  have cell (i : Nat) (inside : i < (text ++ [0]).length) : m i = (text ++ [0])[i] := by
    have size : i < (m.bytes (text.length + 1)).length := by simpa using inside
    rw [← List.getElem_of_eq h size]
    simp [Mem.bytes]
  apply Mem.cstr_eq nonzero
  · intro i inside _
    rw [cell i (by simp; omega), List.getElem_append_left inside]
  · intro _
    rw [cell _ (by simp)]
    simp

theorem start_string (m : Mem) (tail : List UInt8) {segments : List (List UInt8)}
    {before : List UInt8} {i p : Nat}
    (place : (starts before.length segments)[i]? = some p) : ∃ s, segments[i]? = some s ∧
      IsString ((m.put (before ++ (severed segments ++ 0 :: tail))).skip p) s := by
  induction segments generalizing before i with
  | nil => simp [starts] at place
  | cons s segments ih =>
      cases i with
      | zero =>
          obtain rfl : before.length + 1 = p := by simpa [starts] using place
          obtain ⟨after, rest⟩ : ∃ after, severed segments ++ 0 :: tail = 0 :: after := by
            cases segments with
            | nil => exact ⟨tail, rfl⟩
            | cons s' segments => exact ⟨_, rfl⟩
          have text := isString_put m (before ++ [0]) s after
          rw [← rest, List.length_append] at text
          exact ⟨s, rfl, by simpa [severed] using text⟩
      | succ i =>
          have size : (before ++ 0 :: s).length = before.length + 1 + s.length := by
            simp
            omega
          rw [starts, List.getElem?_cons_succ, ← size] at place
          obtain ⟨s', found, text⟩ := ih place
          exact ⟨s', found, by simpa [severed] using text⟩

theorem starts_length (pos : Nat) (segments : List (List UInt8)) :
    (starts pos segments).length = segments.length := by
  induction segments generalizing pos with
  | nil => rfl
  | cons s segments ih => simp [starts, ih]

theorem levelled_mono (beyond : Nat) (segments : List (List UInt8)) :
    levelled beyond segments <+: segments := by
  induction segments with
  | nil => exact List.prefix_rfl
  | cons s segments ih =>
      rw [levelled]
      split
      · exact List.nil_prefix
      · exact List.prefix_cons_inj s |>.mpr ih

theorem starts_mono {segments segments' : List (List UInt8)} (h : segments <+: segments')
    (pos : Nat) : starts pos segments <+: starts pos segments' := by
  induction segments generalizing segments' pos with
  | nil => exact List.nil_prefix
  | cons s segments ih =>
      obtain ⟨rest, rfl⟩ := h
      exact List.prefix_cons_inj _ |>.mpr (ih (List.prefix_append _ _) _)

inductive PointsTo : Option Mem → Option (List UInt8) → Prop
  | null : PointsTo none none
  | text {m : Mem} {s : List UInt8} (string : IsString m s) : PointsTo (some m) (some s)

/-- The arguments name these parts of a path. -/
structure CallbackArgs.Names (levels : Nat) (args : CallbackArgs) (segments : List (List UInt8)) :
    Prop where
  cmdlvl : args.cmdlvl = min levels ((segments.length + 1) / 2)
  idlvl : args.idlvl = min levels (segments.length / 2)
  command : List.Forall₂ PointsTo args.command
    ((List.range levels).map fun k => segments[2 * k]?)
  id : List.Forall₂ PointsTo args.id ((List.range levels).map fun k => segments[2 * k + 1]?)

theorem prefix_getElem? {α : Type} {l l' : List α} (h : l <+: l') {i : Nat} {x : α}
    (found : l[i]? = some x) : l'[i]? = some x := by
  obtain ⟨rest, rfl⟩ := h
  obtain ⟨inside, rfl⟩ := List.getElem?_eq_some_iff.mp found
  rw [List.getElem?_append_left inside, List.getElem?_eq_getElem inside]

theorem names_of_records {cfg : Config} {s : State} {m : Mem} {front tail : List UInt8}
    {segments kept : List (List UInt8)}
    (url : (s.path cfg).url = m.put (front ++ (severed segments ++ 0 :: tail)))
    (first : kept <+: segments)
    (h : (s.path cfg).Records cfg.apiLevels (starts front.length kept)) :
    (s.callbackArgs cfg).Names cfg.apiLevels kept := by
  have size := starts_length front.length kept
  have pointer (i : Nat) : PointsTo
      (((starts front.length kept)[i]?).map (s.path cfg).url.skip) kept[i]? := by
    cases place : (starts front.length kept)[i]? with
    | none =>
        rw [List.getElem?_eq_none_iff, size] at place
        rw [List.getElem?_eq_none place]
        exact .null
    | some p =>
        obtain ⟨part, found, string⟩ :=
          start_string m tail (prefix_getElem? (starts_mono first front.length) place)
        rw [← url] at string
        obtain ⟨inside, -⟩ := List.getElem?_eq_some_iff.mp place
        rw [size] at inside
        have same := prefix_getElem? first (List.getElem?_eq_getElem inside)
        rw [List.getElem?_eq_getElem inside, Option.some.inj (same.symm.trans found)]
        exact .text string
  refine ⟨?_, ?_, ?_, ?_⟩
  · rw [State.callbackArgs, h.cmdlvl, size]
  · rw [State.callbackArgs, h.idlvl, size]
  · rw [State.callbackArgs, List.forall₂_map_left_iff, List.forall₂_map_right_iff,
      List.forall₂_same]
    intro k inside
    rw [h.command, if_pos (List.mem_range.mp inside)]
    exact pointer _
  · rw [State.callbackArgs, List.forall₂_map_left_iff, List.forall₂_map_right_iff,
      List.forall₂_same]
    intro k inside
    rw [h.id, if_pos (List.mem_range.mp inside)]
    exact pointer _

theorem records_nil (levels : Nat) (url : Mem) (pos : Nat) :
    PathLoop.Records levels ⟨url, pos, 0, 0, fun _ => none, fun _ => none⟩ [] :=
  ⟨by simp, by simp, fun k => by simp, fun k => by simp⟩

theorem path_names {cfg : Config} {s : State} {m : Mem} {front tail : List UInt8}
    {segments : List (List UInt8)} {beyond : Nat} (lead : ∀ b ∈ front, b ≠ 0 ∧ b ≠ 47)
    (plain : ∀ s ∈ segments, ∀ b ∈ s, b ≠ 0 ∧ b ≠ 47)
    (url : s.request.url = m.put (front ++ (slashed segments ++ 0 :: tail)))
    (urlLen : s.request.urlLen = (front ++ slashed segments).length + beyond) :
    (s.callbackArgs cfg).Names cfg.apiLevels (levelled beyond segments) := by
  have whole : s.request.url = m.put ([] ++ (front ++ (slashed segments ++ 0 :: tail))) := url
  have path : s.path cfg = cutPath cfg.apiLevels ((slashed segments).length + beyond)
      ⟨s.request.url, front.length, 0, 0, fun _ => none, fun _ => none⟩ := by
    rw [State.path, urlLen, List.length_append, Nat.add_assoc,
      cutPath_part lead whole rfl]
    simp
  obtain ⟨cells, records⟩ := cutPath_slashed beyond plain url rfl
    (records_nil cfg.apiLevels s.request.url front.length)
  rw [← path] at cells records
  exact names_of_records cells (levelled_mono beyond segments) records

/-! ## The parts of a path -/

/-- What comes behind each slash, up to the next one. -/
def pathParts : List UInt8 → List (List UInt8)
  | [] => []
  | b :: path => if b = 47 then path.takeWhile (· ≠ 47) :: pathParts path else pathParts path

theorem path_parts (path : List UInt8) : path.takeWhile (· ≠ 47) ++ slashed (pathParts path) = path := by
  induction path with
  | nil => rfl
  | cons b path ih =>
      rw [pathParts]
      by_cases slash : b = 47
      · rw [if_pos slash, List.takeWhile_cons_of_neg (by simp [slash]), slashed, List.flatMap_cons, slash]
        exact congrArg (47 :: ·) ih
      · rw [if_neg slash, List.takeWhile_cons_of_pos (by simp [slash])]
        exact congrArg (b :: ·) ih

theorem pathParts_plain {path s : List UInt8} (member : s ∈ pathParts path) :
    ∀ b ∈ s, b ∈ path ∧ b ≠ 47 := by
  induction path with
  | nil => cases member
  | cons c path ih =>
      rw [pathParts] at member
      intro b inside
      have later (there : s ∈ pathParts path) : b ∈ c :: path ∧ b ≠ 47 := by
        obtain ⟨found, other⟩ := ih there b inside
        exact ⟨List.mem_cons_of_mem c found, other⟩
      split at member
      · cases List.mem_cons.mp member with
        | inl first =>
            rw [first] at inside
            have other := List.all_eq_true.mp List.all_takeWhile b inside
            exact ⟨List.mem_cons_of_mem c ((List.takeWhile_prefix _).subset inside), by simpa using other⟩
        | inr there => exact later there
      · exact later member

theorem Request.Path.names {cfg : Config} {s : State} {path : List UInt8}
    (h : s.request.Path cfg path) :
    (s.callbackArgs cfg).Names cfg.apiLevels (levelled 0 (pathParts path)) := by
  obtain ⟨m, url⟩ := h.url
  have split := path_parts path
  refine @path_names cfg s m (path.takeWhile (· ≠ 47)) [] (pathParts path) 0 ?_ ?_ ?_ ?_
  · intro b inside
    have other := List.all_eq_true.mp List.all_takeWhile b inside
    exact ⟨h.nonzero b ((List.takeWhile_prefix _).subset inside), by simpa using other⟩
  · intro s member b inside
    obtain ⟨found, other⟩ := pathParts_plain member b inside
    exact ⟨h.nonzero b found, other⟩
  · rw [← List.append_assoc, split]
    exact url
  · rw [split]
    exact h.urlLen

/-! ## REST paths -/

theorem clearLevels_total {levels : Nat} (few : levels < 256) : ∃ i, (clearLevels levels).Returns i := by
  have round (i : UInt8) (_ : True) (below : decide (i.toNat < levels) = true) :
      True ∧ levels - (i + 1).toNat < levels - i.toNat := by
    have less : i.toNat < levels := of_decide_eq_true below
    have next : (i + 1).toNat = i.toNat + 1 := by
      rw [UInt8.toNat_add, UInt8.toNat_one, Nat.mod_eq_of_lt (by omega)]
    exact ⟨trivial, by omega⟩
  obtain ⟨i, run, -⟩ := whileDo_total (fun i : UInt8 => levels - i.toNat) (fun _ => True) round 0
    trivial
  exact ⟨i, run⟩

theorem splitURL_returns {levels : Nat} {url : Mem} {urlLen : Nat} {t : PathLoop} :
    (splitURL levels url urlLen).Returns t ↔
      levels < 256 ∧ t = cutPath levels urlLen ⟨url, 0, 0, 0, fun _ => none, fun _ => none⟩ := by
  constructor
  · intro h
    obtain ⟨i, clear, h⟩ := returns_bind.mp h
    refine ⟨?_, returns_pure.mp h⟩
    by_contra many
    refine (whileDo_diverges (fun i : UInt8 => ?_) 0).not_returns clear
    have := i.toNat_lt
    simp
    omega
  · rintro ⟨few, rfl⟩
    obtain ⟨i, clear⟩ := clearLevels_total few
    exact clear.bind (returns_pure.mpr rfl)

/-- The parts behind slashes, with or without another slash at the end. -/
def restPath (segments : List (List UInt8)) (slash : Bool) : List UInt8 :=
  slashed (segments ++ if slash then [[]] else [])

def RestSegments (segments : List (List UInt8)) : Prop :=
  ∀ s ∈ segments, s ≠ [] ∧ ∀ b ∈ s, b ≠ 47 ∧ b ≠ 63 ∧ isBlank b = false ∧ b ≠ 0

theorem levelled_parts {segments : List (List UInt8)} (nonempty : ∀ s ∈ segments, s ≠ [])
    (slash : Bool) : levelled 0 (segments ++ if slash then [[]] else []) = segments := by
  induction segments with
  | nil => cases slash <;> simp [levelled]
  | cons s segments ih =>
      have some : s ≠ [] := nonempty s (by simp)
      rw [List.cons_append, levelled, if_neg (by simp [some]),
        ih fun s member => nonempty s (by simp [member])]

theorem RestSegments.plain {segments : List (List UInt8)} (h : RestSegments segments)
    (slash : Bool) : ∀ s ∈ segments ++ (if slash then [[]] else []), ∀ b ∈ s,
      b ≠ 47 ∧ b ≠ 63 ∧ isBlank b = false ∧ b ≠ 0 := by
  intro s member b inside
  rcases List.mem_append.mp member with member | last
  · exact (h s member).2 b inside
  · cases slash with
    | false => simp at last
    | true =>
        obtain rfl : s = [] := by simpa using last
        simp at inside

theorem slashed_mem {segments : List (List UInt8)} {b : UInt8} (h : b ∈ slashed segments) :
    b = 47 ∨ ∃ s ∈ segments, b ∈ s := by
  obtain ⟨s, member, inside⟩ := List.mem_flatMap.mp h
  rcases List.mem_cons.mp inside with rfl | inside
  · exact .inl rfl
  · exact .inr ⟨s, member, inside⟩

theorem urlCells_plain {target : List UInt8} (plain : 63 ∉ target) : urlCells target = target := by
  refine (List.map_congr_left fun b member => ?_).trans (List.map_id target)
  have other : b ≠ 63 := by
    rintro rfl
    exact plain member
  rw [if_neg other, id]

theorem parsed_url {cfg : Config} {conn : Connection} {s : State} {p : Parsed}
    (reachable : Reachable cfg s) (text : RequestText) {body : List GetByte}
    (input : conn.input = sends text.render ++ body)
    (fits : text.target.length < cfg.urlBufferSize)
    (parse : (parseRequest cfg conn.checkAuth (s.accept cfg conn).reader
      (s.accept cfg conn).request).Returns p) :
    p.request.url = s.request.url.put (urlCells text.target ++ [0]) ∧
      p.request.urlLen = text.target.length ∧ p.request.method = text.method := by
  have pending : (s.accept cfg conn).reader.pending = sends text.render ++ body := input
  have last := accept_last reachable conn
  obtain ⟨r', a, run, -⟩ := parseRequest_credentials conn.checkAuth text
    (q := (s.accept cfg conn).request) pending rfl rfl last
  have kept : text.target.take (cfg.urlBufferSize - 1) = text.target :=
    List.take_of_length_le (by omega)
  rw [parse.unique run]
  refine ⟨?_, ?_, rfl⟩
  · change s.request.url.put (urlCells (text.target.take (cfg.urlBufferSize - 1)) ++ [0]) = _
    rw [kept]
  · change (text.target.take (cfg.urlBufferSize - 1)).length = _
    rw [kept]

/-- The callback is given the parts of the path in turn as commands and ids. -/
theorem restPath_calls {cfg : Config} {conn : Connection} {s : State} {p : Parsed}
    {callback : Callback} {segments : List (List UInt8)} {slash : Bool} (text : RequestText)
    {body : List GetByte} (nonempty : segments ≠ []) (plain : RestSegments segments)
    (target : text.target = restPath segments slash) (reachable : Reachable cfg s)
    (input : conn.input = sends text.render ++ body)
    (fits : text.target.length < cfg.urlBufferSize)
    (parse : (parseRequest cfg conn.checkAuth (s.accept cfg conn).reader
      (s.accept cfg conn).request).Returns p)
    (registered : s.registry.callback = some callback) :
    ∃ args, args.Names cfg.apiLevels segments ∧ args.method = text.method ∧
      findAPICallback cfg conn.visit (s.asked cfg conn p) = (do
        let t ← runCallback cfg callback conn.visit args ((s.asked cfg conn p).withPath cfg)
        pure ⟨1, t⟩) := by
  obtain ⟨url, urlLen, method⟩ := parsed_url reachable text input fits parse
  have other : 63 ∉ text.target := by
    intro mark
    rw [target, restPath] at mark
    rcases slashed_mem mark with wrong | ⟨s, member, inside⟩
    · exact absurd wrong (by decide)
    · exact (plain.plain slash s member 63 inside).2.1 rfl
  rw [urlCells_plain other, target, restPath] at url
  rw [target, restPath] at urlLen
  have names : ((s.asked cfg conn p).callbackArgs cfg).Names cfg.apiLevels
      (levelled 0 (segments ++ if slash then [[]] else [])) := by
    refine path_names (by simp) ?_ (show _ = Mem.put _ ([] ++ _) from url) urlLen
    intro s member b inside
    have each := plain.plain slash s member b inside
    exact ⟨each.2.2.2, each.1⟩
  rw [levelled_parts fun s member => (plain s member).1] at names
  refine ⟨_, names, method, ?_⟩
  have level : 0 < ((s.asked cfg conn p).path cfg).cmdlvl := by
    have count : ((s.asked cfg conn p).path cfg).cmdlvl = _ := names.cmdlvl
    have some := List.length_pos_iff.mpr nonempty
    have positive := cfg.levels_pos
    omega
  rw [findAPICallback_eq (s := s.asked cfg conn p) registered, if_pos level]

theorem restServer_parsed (text : RequestText) (body : List UInt8) :
    ∃ p, (parseRequest (.default .none) (Connection.ofBytes (text.render ++ body)).checkAuth
      (restServer.accept (.default .none) (.ofBytes (text.render ++ body))).reader
      (restServer.accept (.default .none) (.ofBytes (text.render ++ body))).request).Returns p := by
  have pending : (restServer.accept (.default .none) (.ofBytes (text.render ++ body))).reader.pending =
      sends text.render ++ sends body := List.map_append ..
  have last : isBlank (restServer.request.url ((Config.default .none).urlBufferSize - 1)) = false := by
    decide
  obtain ⟨r', run, -⟩ := parseRequest_text rfl _ text pending rfl rfl last
  exact ⟨_, run⟩

def lampRequest : RequestText :=
  { queryRequest with target := ascii "/lamp/7/", target_plain := by decide }

theorem restPath_calls_lamp : ∃ p callback args,
    args.Names 3 [ascii "lamp", ascii "7"] ∧
    findAPICallback (.default .none) 0 (restServer.asked (.default .none)
      (.ofBytes (lampRequest.render ++ [])) p) = (do
        let t ← runCallback (.default .none) callback 0 args ((restServer.asked (.default .none)
          (.ofBytes (lampRequest.render ++ [])) p).withPath (.default .none))
        pure ⟨1, t⟩) := by
  obtain ⟨p, parse⟩ := restServer_parsed lampRequest []
  have fits : lampRequest.target.length < (Config.default .none).urlBufferSize := by decide
  have plain : RestSegments [ascii "lamp", ascii "7"] := by
    unfold RestSegments
    decide
  have target : lampRequest.target = restPath [ascii "lamp", ascii "7"] true := rfl
  obtain ⟨args, names, -, call⟩ := restPath_calls lampRequest (by simp) plain target
    (reachable_setUp _ _) (List.map_append ..) fits parse rfl
  exact ⟨p, _, args, names, call⟩

/-- With as many levels as eight bits have values, the pointers are never all cleared. -/
theorem splitURL_hangs : RestSegments [ascii "lamp"] ∧
    ∀ t, ¬ (splitURL 256 (.ofBytes (restPath [ascii "lamp"] false)) 5).Returns t := by
  refine ⟨by unfold RestSegments; decide, fun t run => ?_⟩
  exact absurd (splitURL_returns.mp run).1 (by decide)

end AttoHTTP
