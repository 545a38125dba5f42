import AttoHTTP.Model.Esp8266

/-!
# Who owns a slot

The search for a free slot stops one past the table when there is none, and the test behind it lets
that index pass.
-/

namespace AttoHTTP.Esp8266
open Library Comp

variable {C : Type}

/-- Every slot that is given away is one of the table, no two live connections share one, and the
active ones are those that a live connection owns. -/
structure Moment.Sound (maxConn : Nat) (m : Moment C) : Prop where
  inside : ∀ c ∈ m.live, ∀ i, m.wrapper.reverse c = some i → i < maxConn
  distinct : ∀ c ∈ m.live, ∀ d ∈ m.live, ∀ i,
    m.wrapper.reverse c = some i → m.wrapper.reverse d = some i → c = d
  active_iff : ∀ i < maxConn, (m.wrapper.connections i).active ≠ 0 ↔
    ∃ c ∈ m.live, m.wrapper.reverse c = some i

def Moment.Full (maxConn : Nat) (m : Moment C) : Prop :=
  ∀ i < maxConn, (m.wrapper.connections i).active ≠ 0

/-- What a connection that finds every slot taken is to leave. -/
def Moment.Refuses (m : Moment C) (c : C) (m' : Moment C) : Prop :=
  m'.wrapper.reverse c = none ∧ m'.wrapper.connections = m.wrapper.connections

def Moment.Keeps (maxConn : Nat) (m : Moment C) (callback : Callback C) (m' : Moment C) : Prop :=
  m'.Sound maxConn ∧ ∀ c, callback = .connect c → m.Full maxConn → m.Refuses c m'

def Moment.HasSlot (maxConn : Nat) (m : Moment C) : Callback C → Prop
  | .connect _ => ∃ i < maxConn, (m.wrapper.connections i).active = 0
  | .disconnect _ => True

/-! ## The loops -/

theorem add_one_toNat {i : UInt16} {n : Nat} (less : i.toNat < n) (narrow : n < 2 ^ 16) :
    (i + 1).toNat = i.toNat + 1 := by
  rw [UInt16.toNat_add, UInt16.toNat_one]
  exact Nat.mod_eq_of_lt (by omega)

/-- The initialisation ends only when the 16-bit index can reach the size of the table. -/
theorem wrapperInit_narrow {maxConn : Nat} {s s' : Wrapper C}
    (h : (wrapperInit maxConn s).Returns s') : maxConn < 2 ^ 16 := by
  by_contra wide
  obtain ⟨p, loop, -⟩ := returns_bind.mp h
  have always (i : UInt16) : decide (i.toNat < maxConn) = true := by
    have := i.toNat_lt
    exact decide_eq_true (by omega)
  rw [whileDo, if_pos (always 0)] at loop
  exact (doWhile_diverges (fun _ => True) (fun p _ => ⟨always _, trivial⟩) _ trivial).not_returns loop

theorem wrapperInit_clears {maxConn : Nat} {s s' : Wrapper C}
    (h : (wrapperInit maxConn s).Returns s') (i : Nat) (inside : i < maxConn) :
    (s'.connections i).active = 0 := by
  have narrow := wrapperInit_narrow h
  obtain ⟨p, loop, done⟩ := returns_bind.mp h
  obtain ⟨q, loop', ⟨last, cleared⟩, stop⟩ := @whileDo_total (UInt16 × Wrapper C)
    (fun p => p.1.toNat < maxConn) (fun p => (p.1 + 1, p.2.clearServerBuffer p.1.toNat))
    (fun p => maxConn - p.1.toNat)
    (fun p => p.1.toNat ≤ maxConn ∧ ∀ k < p.1.toNat, (p.2.connections k).active = 0)
    (fun p inv more => by
      have less : p.1.toNat < maxConn := of_decide_eq_true more
      rw [add_one_toNat less narrow]
      refine ⟨⟨less, fun k before => ?_⟩, by omega⟩
      simp only [Wrapper.clearServerBuffer, Wrapper.setSlot]
      split
      · rfl
      · exact inv.2 k (by omega)) ((0 : UInt16), s)
    ⟨Nat.zero_le _, fun k before => absurd before (Nat.not_lt_zero k)⟩
  obtain rfl := loop.unique loop'
  rw [returns_pure.mp done]
  have past := of_decide_eq_false stop
  exact cleared i (by omega)

theorem search_returns {maxConn : Nat} (narrow : maxConn < 2 ^ 16) (s : Wrapper C) :
    ∃ i : UInt16, (whileDo (fun i => i.toNat < maxConn && (s.connections i.toNat).active != 0)
        (fun i => i + 1) (0 : UInt16)).Returns i ∧ i.toNat ≤ maxConn ∧
      (∀ k < i.toNat, (s.connections k).active ≠ 0) ∧
      (i.toNat < maxConn → (s.connections i.toNat).active = 0) := by
  obtain ⟨i, run, ⟨last, taken⟩, stop⟩ := @whileDo_total UInt16
    (fun i => i.toNat < maxConn && (s.connections i.toNat).active != 0) (fun i => i + 1)
    (fun i => maxConn - i.toNat)
    (fun i => i.toNat ≤ maxConn ∧ ∀ k < i.toNat, (s.connections k).active ≠ 0)
    (fun i inv more => by
      simp only [Bool.and_eq_true, decide_eq_true_eq, bne_iff_ne] at more
      rw [add_one_toNat more.1 narrow]
      refine ⟨⟨more.1, fun k before => ?_⟩, by omega⟩
      by_cases here : k = i.toNat
      · rw [here]
        exact more.2
      · exact inv.2 k (by omega)) (0 : UInt16)
    ⟨Nat.zero_le _, fun k before => absurd before (Nat.not_lt_zero k)⟩
  refine ⟨i, run, last, taken, fun inside => ?_⟩
  simpa [inside] using stop

/-! ## One callback -/

variable [DecidableEq C] {maxConn : Nat} {m m' : Moment C} {c : C}

theorem connect_delivered (narrow : maxConn < 2 ^ 16) (m : Moment C) (c : C) :
    ∃ i ≤ maxConn, (m.deliver maxConn (.connect c)).Returns
        ⟨(m.wrapper.setReverse c (some i)).setSlot i
          { m.wrapper.connections i with active := 1 }, c :: m.live⟩ ∧
      (∀ k < i, (m.wrapper.connections k).active ≠ 0) ∧
      (i < maxConn → (m.wrapper.connections i).active = 0) := by
  obtain ⟨i, run, last, taken, free⟩ := search_returns narrow m.wrapper
  refine ⟨i.toNat, last, ?_, taken, free⟩
  refine Returns.bind (run.bind ?_) (returns_pure.mpr rfl)
  rw [if_neg (by omega)]
  exact returns_pure.mpr rfl

theorem connect_sound (sound : m.Sound maxConn) (fresh : c ∉ m.live) {i : Nat} (inside : i < maxConn)
    (free : (m.wrapper.connections i).active = 0) :
    Moment.Sound maxConn ⟨(m.wrapper.setReverse c (some i)).setSlot i
      { m.wrapper.connections i with active := 1 }, c :: m.live⟩ := by
  have other {d : C} (member : d ∈ m.live) : d ≠ c := fun same => fresh (same ▸ member)
  have unowned {d : C} (member : d ∈ m.live) (owner : m.wrapper.reverse d = some i) : False :=
    (sound.active_iff i inside).mpr ⟨d, member, owner⟩ free
  constructor
  · intro d member k owner
    simp only [Wrapper.setSlot, Wrapper.setReverse] at owner
    cases member with
    | head =>
        rw [if_pos rfl] at owner
        obtain rfl := Option.some.inj owner
        exact inside
    | tail _ member =>
        rw [if_neg (other member)] at owner
        exact sound.inside d member k owner
  · intro d member e member' k owner owner'
    simp only [Wrapper.setSlot, Wrapper.setReverse] at owner owner'
    by_cases first : d = c
    · by_cases second : e = c
      · rw [first, second]
      · rw [if_pos first] at owner
        rw [if_neg second, ← owner] at owner'
        exact (unowned ((List.mem_cons.mp member').resolve_left second) owner').elim
    · rw [if_neg first] at owner
      by_cases second : e = c
      · rw [if_pos second, ← owner] at owner'
        exact (unowned ((List.mem_cons.mp member).resolve_left first) owner'.symm).elim
      · rw [if_neg second] at owner'
        exact sound.distinct d ((List.mem_cons.mp member).resolve_left first) e
          ((List.mem_cons.mp member').resolve_left second) k owner owner'
  · intro k less
    simp only [Wrapper.setSlot, Wrapper.setReverse]
    by_cases here : k = i
    · rw [if_pos here]
      exact ⟨fun _ => ⟨c, by simp, by rw [if_pos rfl, here]⟩, fun _ => (by decide : (1 : UInt8) ≠ 0)⟩
    · rw [if_neg here, sound.active_iff k less]
      constructor
      · rintro ⟨d, member, owner⟩
        exact ⟨d, by simp [member], by rw [if_neg (other member), owner]⟩
      · rintro ⟨d, member, owner⟩
        by_cases first : d = c
        · rw [if_pos first] at owner
          exact absurd (Option.some.inj owner).symm here
        · rw [if_neg first] at owner
          exact ⟨d, (List.mem_cons.mp member).resolve_left first, owner⟩

theorem disconnect_sound (sound : m.Sound maxConn) (member : c ∈ m.live) :
    Moment.Sound maxConn ⟨disconnectcb c m.wrapper, m.live.filter (· ≠ c)⟩ := by
  have reverse (d : C) (other : d ≠ c) :
      (disconnectcb c m.wrapper).reverse d = m.wrapper.reverse d := by
    simp only [disconnectcb, Wrapper.setReverse, if_neg other]
    split <;> rfl
  have left {d : C} (member : d ∈ m.live.filter (· ≠ c)) : d ∈ m.live ∧ d ≠ c := by
    simpa using member
  constructor
  · intro d member k owner
    rw [reverse d (left member).2] at owner
    exact sound.inside d (left member).1 k owner
  · intro d member e member' k owner owner'
    rw [reverse d (left member).2] at owner
    rw [reverse e (left member').2] at owner'
    exact sound.distinct d (left member).1 e (left member').1 k owner owner'
  · intro k less
    have owners : (∃ d ∈ m.live.filter (· ≠ c), (disconnectcb c m.wrapper).reverse d = some k) ↔
        ∃ d ∈ m.live, d ≠ c ∧ m.wrapper.reverse d = some k := by
      constructor
      · rintro ⟨d, member, owner⟩
        rw [reverse d (left member).2] at owner
        exact ⟨d, (left member).1, (left member).2, owner⟩
      · rintro ⟨d, member, other, owner⟩
        exact ⟨d, by simpa using ⟨member, other⟩, by rw [reverse d other, owner]⟩
    rw [owners]
    cases slot : m.wrapper.reverse c with
    | none =>
        simp only [disconnectcb, slot, Wrapper.setReverse, sound.active_iff k less]
        constructor
        · rintro ⟨d, member, owner⟩
          refine ⟨d, member, fun same => ?_, owner⟩
          rw [same, slot] at owner
          cases owner
        · rintro ⟨d, member, -, owner⟩
          exact ⟨d, member, owner⟩
    | some i =>
        simp only [disconnectcb, slot, Wrapper.setReverse, Wrapper.clearServerBuffer,
          Wrapper.setSlot]
        by_cases here : k = i
        · rw [if_pos here]
          refine ⟨fun taken => absurd rfl taken, ?_⟩
          rintro ⟨d, member', other, owner⟩
          rw [here] at owner
          exact absurd (sound.distinct d member' c member i owner slot) other
        · rw [if_neg here, sound.active_iff k less]
          constructor
          · rintro ⟨d, member', owner⟩
            refine ⟨d, member', fun same => ?_, owner⟩
            rw [same, slot] at owner
            exact here (Option.some.inj owner).symm
          · rintro ⟨d, member', -, owner⟩
            exact ⟨d, member', owner⟩

theorem deliver_keeps_iff (narrow : maxConn < 2 ^ 16) (sound : m.Sound maxConn)
    {callback : Callback C} (allowed : m.Allows callback) :
    ∃ m', (m.deliver maxConn callback).Returns m' ∧
      (m.Keeps maxConn callback m' ↔ m.HasSlot maxConn callback) := by
  cases callback with
  | disconnect c =>
      refine ⟨_, returns_pure.mpr rfl, fun _ => trivial, fun _ => ⟨disconnect_sound sound allowed, ?_⟩⟩
      intro d same
      cases same
  | connect c =>
      obtain ⟨i, last, delivered, taken, free⟩ := connect_delivered narrow m c
      refine ⟨_, delivered, fun keeps => ?_, fun slot => ?_⟩
      · -- A full table would have handed out the index behind its last slot.
        have inside := keeps.1.inside c (by simp) i (by simp [Wrapper.setSlot, Wrapper.setReverse])
        exact ⟨i, inside, free inside⟩
      · obtain ⟨k, less, vacant⟩ := slot
        have inside : i < maxConn := by
          by_contra past
          exact taken k (by omega) vacant
        refine ⟨connect_sound sound allowed inside (free inside), fun d _ full => ?_⟩
        exact absurd vacant (full k less)

theorem run_sound {w : Wrapper C} (narrow : maxConn < 2 ^ 16)
    (cleared : ∀ i < maxConn, (w.connections i).active = 0)
    (run : Run maxConn (Moment.HasSlot maxConn) ⟨w, []⟩ m) : m.Sound maxConn := by
  induction run with
  | start =>
      refine ⟨by simp, by simp, fun i less => ?_⟩
      simp [cleared i less]
  | next run allowed condition delivered ih =>
      obtain ⟨m', delivered', keeps⟩ := deliver_keeps_iff narrow ih allowed
      obtain rfl := delivered.unique delivered'
      exact (keeps.mpr condition).1

/-- Along the runs in which no connection arrives at a full table the slots are owned as they
should be, and such an arrival is what breaks it. -/
theorem connections_sound {w w' : Wrapper C} (init : (wrapperInit maxConn w).Returns w')
    (run : Run maxConn (Moment.HasSlot maxConn) ⟨w', []⟩ m) :
    m.Sound maxConn ∧ ∀ callback, m.Allows callback →
      ∃ m', (m.deliver maxConn callback).Returns m' ∧
        (m.Keeps maxConn callback m' ↔ m.HasSlot maxConn callback) := by
  have narrow := wrapperInit_narrow init
  have sound := run_sound narrow (wrapperInit_clears init) run
  exact ⟨sound, fun callback allowed => deliver_keeps_iff narrow sound allowed⟩

def zeroed : Wrapper Bool := ⟨fun _ => ⟨0, 0, 0⟩, fun _ => none⟩

def started : Moment Bool := ⟨zeroed.clearServerBuffer 0, []⟩

def taken : Moment Bool :=
  ⟨(started.wrapper.setReverse false (some 0)).setSlot 0 ⟨0, 0, 1⟩, [false]⟩

theorem run_taken (meets : Moment Bool → Callback Bool → Prop)
    (condition : meets started (.connect false)) : Run 1 meets started taken :=
  .next .start (show started.Allows (.connect false) by simp [started, Moment.Allows]) condition
    ⟨3, rfl⟩

theorem connections_sound_one :
    taken.Sound 1 ∧ ∀ callback, taken.Allows callback →
      ∃ m', (taken.deliver 1 callback).Returns m' ∧
        (taken.Keeps 1 callback m' ↔ taken.HasSlot 1 callback) :=
  connections_sound (show (wrapperInit 1 zeroed).Returns started.wrapper from ⟨3, rfl⟩)
    (run_taken _ ⟨0, by decide, rfl⟩)

theorem full_table_slot :
    (wrapperInit 1 zeroed).Returns started.wrapper ∧
      ∃ m, Run 1 (fun _ _ => True) started m ∧ ¬ m.Sound 1 := by
  refine ⟨⟨3, rfl⟩,
    ⟨(taken.wrapper.setReverse true (some 1)).setSlot 1 ⟨0, 0, 1⟩, [true, false]⟩, ?_, ?_⟩
  · exact .next (run_taken _ trivial)
      (show taken.Allows (.connect true) by simp [taken, Moment.Allows]) trivial ⟨3, rfl⟩
  · intro sound
    have inside := sound.inside true (by simp) 1 rfl
    exact absurd inside (by decide)

end AttoHTTP.Esp8266
