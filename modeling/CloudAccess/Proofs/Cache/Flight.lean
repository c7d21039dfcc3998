import CloudAccess.Proofs.Cache.Handoff

/-!
# One assumption at a time

The guard of a cache keeps two retrievals from assuming the role at the same
time.

* `Guarded` is the invariant: the guard is with a retrieval exactly when that
  is inside its assumption.  `Effect.guarded` says that every effect keeps it,
  and `Reaches.guarded` that it holds wherever steps lead.
* `Effect.assumed` says when an assumption begins, and `enter_of_fresh` what
  happens to a retrieval that finds a fresh set at its first look.
* `single_flight` puts these together.
-/

namespace CloudAccess.Cache

variable {s t : Cache} {a : Action} {i j : Nat} {h : Handle} {c : CredentialSet}

/-! ## The guard -/

/-- A retrieval is inside its assumption. -/
def Assumes (s : Cache) (i : Nat) : Prop :=
  ∃ h, s.retrievals[i]? = some ⟨h, .assuming, none⟩

/-- The guard is with the retrieval that is inside its assumption. -/
def Guarded (s : Cache) : Prop := ∀ i, s.guard = some i ↔ s.Assumes i

/-- A retrieval that has ended is not inside its assumption. -/
@[simp] theorem assumes_setFate {fate : Retrieval.Fate} :
    (s.setFate i fate).Assumes j ↔ i ≠ j ∧ s.Assumes j := by
  unfold Assumes
  by_cases heq : i = j
  · subst heq
    cases hr : s.retrievals[i]? <;> simp [hr]
  · simp [heq]

@[simp] theorem assumes_release :
    (s.release i).Assumes j ↔ i ≠ j ∧ s.Assumes j :=
  assumes_setFate

/-- A retrieval comes inside its assumption by its phase. -/
@[simp] theorem assumes_setPhase {phase : Retrieval.Phase} :
    (s.setPhase i phase).Assumes j ↔
      if i = j then phase = .assuming ∧ s.IsLive i else s.Assumes j := by
  unfold Assumes IsLive
  by_cases heq : i = j
  · subst heq
    cases hr : s.retrievals[i]? with
    | none => simp [hr]
    | some r =>
      obtain ⟨h, before, fate⟩ := r
      simp [hr]
  · simp [heq]

/-- A retrieval that is started or waits is not inside its assumption. -/
theorem not_assumes {phase : Retrieval.Phase}
    (hr : s.retrievals[i]? = some ⟨h, phase, none⟩) (hp : phase ≠ .assuming) :
    ¬s.Assumes i := by
  rintro ⟨g, hg⟩
  rw [hr, Option.some_inj] at hg
  cases hg
  exact hp rfl

/-- At most one retrieval is inside its assumption. -/
theorem Guarded.unique (hg : s.Guarded) (hi : s.Assumes i) (hj : s.Assumes j) :
    i = j :=
  Option.some.inj (((hg i).2 hi).symm.trans ((hg j).2 hj))

/-- A retrieval that is not inside its assumption ends without the guard. -/
theorem Guarded.end_outside (hg : s.Guarded) (hnot : ¬s.Assumes i)
    (hguard : t.guard = s.guard) (ht : ∀ j, t.Assumes j ↔ i ≠ j ∧ s.Assumes j) :
    t.Guarded := by
  intro j
  rw [hguard, hg j, ht j]
  constructor
  · exact fun hj => ⟨fun heq => hnot (heq ▸ hj), hj⟩
  · exact fun hj => hj.2

/-- The end of an assumption leaves the guard free. -/
theorem Guarded.end_inside (hg : s.Guarded) (hi : s.Assumes i)
    (hguard : t.guard = none) (ht : ∀ j, t.Assumes j ↔ i ≠ j ∧ s.Assumes j) :
    t.Guarded := by
  intro j
  rw [hguard, ht j]
  constructor
  · intro hj
    cases hj
  · rintro ⟨hne, hj⟩
    exact absurd (hg.unique hi hj) hne

/-- A new retrieval is not inside its assumption. -/
theorem assumes_start : (s.act (.start h)).Assumes j ↔ s.Assumes j := by
  show (∃ g, (s.retrievals ++ [{ handle := h }])[j]? =
    some ⟨g, .assuming, none⟩) ↔ _
  rcases Nat.lt_or_ge j s.retrievals.length with hlt | hge
  · rw [List.getElem?_append_left hlt]
    rfl
  · rw [List.getElem?_append_right hge, List.getElem?_singleton]
    constructor
    · rintro ⟨g, hj⟩
      split at hj <;> cases hj
    · rintro ⟨g, hj⟩
      rw [List.getElem?_eq_none hge] at hj
      cases hj

/-- Every effect keeps the guard with the retrieval that assumes the role. -/
theorem Effect.guarded (he : s.Effect a t) (hg : s.Guarded) : t.Guarded := by
  cases he with
  | idle | invalidate | setClock | addClock => exact hg
  | start => exact fun j => (hg j).trans assumes_start.symm
  | hit hr | enterCrashed hr | share hr | acquireCrashed hr =>
    exact hg.end_outside (not_assumes hr (by simp)) rfl fun j => assumes_setFate
  | @miss i _ hr =>
    intro j
    have hnot := not_assumes hr (by simp)
    by_cases heq : i = j
    · subst heq
      simpa [hnot] using fun hi => hnot ((hg i).1 hi)
    · simpa [heq, Assumes] using hg j
  | @assume i h hr hfree =>
    intro j
    by_cases heq : i = j
    · subst heq
      simpa [IsLive] using ⟨h, .waiting, hr⟩
    · have hnone : ¬s.Assumes j := fun hj => by
        rw [← hg j, hfree] at hj
        cases hj
      simpa [heq, Assumes] using hnone
  | crash hr | refuse hr | expire hr | store hr =>
    exact hg.end_inside ⟨_, hr⟩ rfl fun j => assumes_setFate
  | @drop i _ _ hr =>
    intro j
    rw [assumes_release, ← hg j]
    show s.guard.filter (· ≠ i) = some j ↔ _
    rw [Option.filter_eq_some_iff, and_comm]
    simp [ne_comm]

/-- The guard stays with the retrieval that assumes the role. -/
theorem Guarded.reaches (hg : s.Guarded) (h : s.Reaches t) : t.Guarded := by
  refine h.invariant (I := Guarded) hg fun u v hu hstep => ?_
  obtain ⟨a, rfl⟩ := hstep
  exact (u.effect_act a).guarded hu

/-- The guard is with the retrieval that assumes the role wherever steps
lead. -/
theorem Reaches.guarded {request : Request} {clocks : List Instant}
    (hs : (unused request clocks).Reaches s) : s.Guarded := by
  have hunused : (unused request clocks).Guarded :=
    fun i => by simp [unused, Assumes]
  exact hunused.reaches hs

/-- The guard is free when no retrieval is under way. -/
theorem Guarded.free (hg : s.Guarded) (hnone : ∀ i, ¬s.IsLive i) :
    s.guard = none := by
  refine Option.eq_none_iff_forall_ne_some.2 fun i hi => ?_
  obtain ⟨h, hr⟩ := (hg i).1 hi
  exact hnone i ⟨h, _, hr⟩

/-- A retrieval that is not under way has ended. -/
theorem isSome_fate (hnot : ¬s.IsLive i) {r : Retrieval}
    (hr : s.retrievals[i]? = some r) : r.fate.isSome = true := by
  obtain ⟨h, phase, _ | fate⟩ := r
  · exact absurd ⟨h, phase, hr⟩ hnot
  · rfl

/-! ## When an assumption begins and ends -/

/-- An assumption begins only for a retrieval that waits, and only when the
slot is stale for its handle. -/
theorem Effect.assumed (he : s.Effect a t) (hbefore : ¬s.Assumes i)
    (hafter : t.Assumes i) :
    ∃ h, s.retrievals[i]? = some ⟨h, .waiting, none⟩ ∧ s.guard = none ∧
      s.lookup h = .stale := by
  cases he with
  | @assume k h hr hguard hl =>
    by_cases heq : k = i
    · subst heq
      exact ⟨h, hr, hguard, hl⟩
    · rw [assumes_setPhase, if_neg heq] at hafter
      exact absurd hafter hbefore
  | @miss k =>
    rw [assumes_setPhase] at hafter
    split at hafter
    · cases hafter.1
    · exact absurd hafter hbefore
  | start => exact absurd (assumes_start.1 hafter) hbefore
  | hit | enterCrashed | share | acquireCrashed | crash | refuse | expire
  | store | drop =>
    exact absurd (assumes_setFate.1 hafter).2 hbefore
  | _ => exact absurd hafter hbefore

theorem not_isLive_setFate {fate : Retrieval.Fate} :
    ¬(s.setFate i fate).IsLive i := by
  rintro ⟨h, phase, hr⟩
  cases hs : s.retrievals[i]? <;> simp [hs] at hr

/-- However an assumption ends, it leaves the guard free. -/
theorem guard_settle (hi : s.Assumes i) (answer : Outcome CredentialSet) :
    (s.act (.settle i answer)).guard = none ∧
    ¬(s.act (.settle i answer)).IsLive i := by
  obtain ⟨h, hr⟩ := hi
  have hact : s.act (.settle i answer) = s.settle i h answer := by
    simp only [act, hr]
  rw [hact]
  unfold settle
  cases answer with
  | crashed | failed e => exact ⟨rfl, not_isLive_setFate⟩
  | value c =>
    dsimp only
    split <;> exact ⟨rfl, not_isLive_setFate⟩

/-- A retrieval that assumes the role and is given up leaves the guard. -/
theorem Guarded.drop (hg : s.Guarded) (hi : s.Assumes i) :
    (s.act (.drop i)).guard = none := by
  have hguard := (hg i).2 hi
  obtain ⟨h, hr⟩ := hi
  simp [act, hr, release, hguard, setFate]

/-- A retrieval that finds a fresh set at its first look is handed it at once,
whoever has the guard. -/
theorem enter_of_fresh (hr : s.retrievals[i]? = some ⟨h, .started, none⟩)
    (hl : s.lookup h = .fresh c) :
    s.act (.enter i) = s.hit.setFate i (.returned (.ok c)) := by
  simp only [act, hr, enter, hl]

/-- Whatever is done to a cache that was unused, and in whatever order: the
guard is with a retrieval exactly when that assumes the role, so that at most
one does; the guard is free once it has an answer, whatever that is, or is
given up; an assumption begins only when the slot is empty or its set is not
fresh for the retrieval's handle; and a retrieval whose first look finds a
fresh set has it at once and leaves everything else to the others. -/
theorem single_flight (request : Request) (clocks : List Instant)
    (hs : (unused request clocks).Reaches s) :
    (∀ i, s.guard = some i ↔ s.Assumes i) ∧
      (∀ i j, s.Assumes i → s.Assumes j → i = j) ∧
      (∀ i, s.Assumes i →
        (∀ answer, (s.act (.settle i answer)).guard = none ∧
          ¬(s.act (.settle i answer)).IsLive i) ∧
        (s.act (.drop i)).guard = none) ∧
      (∀ a i, ¬s.Assumes i → (s.act a).Assumes i →
        ∃ h, s.retrievals[i]? = some ⟨h, .waiting, none⟩ ∧ s.guard = none ∧
          (s.slot = none ∨
            ∃ c, s.slot = some c ∧
              c.freshAt? (s.now h) (s.window h) = some false)) ∧
      ∀ i h c, s.retrievals[i]? = some ⟨h, .started, none⟩ → s.slot = some c →
        c.freshAt? (s.now h) (s.window h) = some true →
        (s.act (.enter i)).retrievals[i]? =
            some ⟨h, .started, some (.returned (.ok c))⟩ ∧
          (s.act (.enter i)).guard = s.guard ∧
          (s.act (.enter i)).slot = s.slot ∧
          ∀ j, j ≠ i →
            (s.act (.enter i)).retrievals[j]? = s.retrievals[j]? := by
  have hg := Reaches.guarded hs
  refine ⟨hg, fun i j => hg.unique, fun i hi =>
    ⟨guard_settle hi, hg.drop hi⟩, ?_, ?_⟩
  · intro a i hbefore hafter
    obtain ⟨h, hr, hfree, hl⟩ := (s.effect_act a).assumed hbefore hafter
    exact ⟨h, hr, hfree, lookup_eq_stale_iff.1 hl⟩
  · intro i h c hr hslot hfresh
    rw [enter_of_fresh hr (lookup_eq_fresh_iff.2 ⟨hslot, hfresh⟩)]
    refine ⟨by simp [hr], rfl, rfl, fun j hj => ?_⟩
    simp [Ne.symm hj]

/-- Two retrievals find the slot empty, and one of them assumes the role. -/
def crowd : List Action :=
  [.start cautious, .start {}, .enter 0, .enter 1, .acquire 1]

theorem single_flight_crowd :
    ((unused plainRequest [.epoch]).after crowd).Assumes 1 ∧
      ((unused plainRequest [.epoch]).after crowd).guard = some 1 ∧
      (∀ j, ((unused plainRequest [.epoch]).after crowd).Assumes j → 1 = j) ∧
      (((unused plainRequest [.epoch]).after crowd).act (.drop 1)).guard =
        none := by
  have hi : ((unused plainRequest [.epoch]).after crowd).Assumes 1 := ⟨{}, rfl⟩
  obtain ⟨hguard, hunique, hends, _⟩ :=
    single_flight plainRequest [.epoch] (reaches_iff_after.2 ⟨crowd, rfl⟩)
  exact ⟨hi, (hguard 1).2 hi, fun j => hunique 1 j hi, (hends 1 hi).2⟩

end CloudAccess.Cache
