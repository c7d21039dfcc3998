import CloudAccess.Cache.Session
import CloudAccess.Proofs.Cache.Provenance
import Mathlib.Data.List.Induction

/-!
# What is in the slot

The slot of a cache is told from the actions carried out on it: it has the set
that an assumption brought last, unless the cache was invalidated since.

* `Brings` says that an action brings a set: an assumption under way is
  answered with one that is not expired by the clock of its retrieval.
* `act_slot_cases` is the step: an action brings a set, which is in the slot
  then, or invalidates the cache, or leaves the slot as it is.
* `LastBrought` is what a list of actions has brought last, and
  `slot_after_eq_iff` says that it is in the slot after them.
* `Effect.expires` says when a retrieval is refused an expired set, and
  `assumes_again` that a stale slot makes the next retrieval assume the role.
* `slot_is_last_brought` puts these together.
-/

namespace CloudAccess.Cache

variable {s t : Cache} {a : Action} {run later : List Action} {i j : Nat}
  {h : Handle} {r : Retrieval} {c d : CredentialSet} {oc : Option CredentialSet}

/-! ## One action -/

/-- An action answers an assumption under way with a set that is not expired by
the clock of its retrieval. -/
def Brings (s : Cache) (a : Action) (c : CredentialSet) : Prop :=
  ∃ i h, a = .settle i (.value c) ∧ s.retrievals[i]? =
    some ⟨h, .assuming, none⟩ ∧ ∀ expiry ∈ c.expiresAt, s.now h < expiry

/-- A retrieval has one handle. -/
theorem handle_unique {phase phase' : Retrieval.Phase} {g : Handle}
    (hr : s.retrievals[i]? = some ⟨h, phase, none⟩)
    (hr' : s.retrievals[i]? = some ⟨g, phase', none⟩) : h = g := by
  rw [hr, Option.some_inj] at hr'
  cases hr'
  rfl

/-- A set that is not expired is in the slot and with its retrieval once it is
brought. -/
theorem Brings.act (hb : s.Brings a c) :
    (s.act a).slot = some c ∧ ∃ i, a.retrieval? = some i ∧
      (s.act a).handed? i = some c := by
  obtain ⟨i, h, rfl, hr, hlt⟩ := hb
  have he := s.effect_act (.settle i (.value c))
  generalize s.act (.settle i (.value c)) = t at he ⊢
  cases he with
  | idle hidle => exact absurd ⟨h, hr⟩ hidle
  | @expire _ g _ expiry hg hexpiry hle =>
    obtain rfl := handle_unique hr hg
    exact absurd hle (Int.not_le.2 (hlt expiry hexpiry))
  | store hg =>
    exact ⟨rfl, i, rfl, handed?_eq_some_iff.2 ⟨h, .assuming, by simp [hr]⟩⟩

/-- An action brings a set, or invalidates the cache, or leaves the slot as it
is. -/
theorem act_slot_cases (s : Cache) (a : Action) :
    (∃ c, s.Brings a c) ∨ a = .invalidate ∨ (s.act a).slot = s.slot := by
  have he := s.effect_act a
  generalize s.act a = t at he ⊢
  cases he with
  | store hr hlt => exact .inl ⟨_, _, _, rfl, hr, hlt⟩
  | invalidate => exact .inr (.inl rfl)
  | _ => exact .inr (.inr rfl)

/-! ## Every run -/

/-- Since a state no action has brought a set or invalidated the cache. -/
def Undisturbed (s : Cache) (later : List Action) : Prop :=
  ∀ l a m, later = l ++ a :: m → a ≠ .invalidate ∧ ∀ c, ¬(s.after l).Brings a c

/-- The set that some actions have brought last since the last invalidation, if
they have brought one since. -/
def LastBrought (s : Cache) (run : List Action) : Option CredentialSet → Prop
  | some c =>
    ∃ before a later, run = before ++ a :: later ∧ (s.after before).Brings a c ∧
      (s.after (before ++ [a])).Undisturbed later
  | none =>
    ∀ before a later c, run = before ++ a :: later →
      (s.after before).Brings a c → .invalidate ∈ later

/-- One more action that neither brings a set nor invalidates the cache. -/
theorem Undisturbed.concat (hu : s.Undisturbed later) (hinv : a ≠ .invalidate)
    (hno : ∀ c, ¬(s.after later).Brings a c) :
    s.Undisturbed (later ++ [a]) := by
  intro l b m heq
  rcases List.eq_nil_or_concat m with rfl | ⟨m', b', rfl⟩
  · obtain ⟨rfl, hb⟩ := List.append_inj' heq rfl
    cases hb
    exact ⟨hinv, hno⟩
  · have hsplit : later ++ [a] = (l ++ b :: m') ++ [b'] := by simp [heq]
    exact hu l b m' (List.append_inj' hsplit rfl).1

theorem Undisturbed.tail (hu : s.Undisturbed (a :: later)) :
    (s.act a).Undisturbed later :=
  fun l b m heq => hu (a :: l) b m (by rw [heq]; rfl)

/-- What nothing disturbs stays in the slot. -/
theorem Undisturbed.slot (hu : s.Undisturbed later) :
    (s.after later).slot = s.slot := by
  induction later generalizing s with
  | nil => rfl
  | cons a later ih =>
    obtain ⟨hinv, hno⟩ := hu [] a later rfl
    have hstep : (s.act a).slot = s.slot := by
      rcases s.act_slot_cases a with ⟨c, hb⟩ | rfl | hsame
      · exact absurd hb (hno c)
      · exact absurd rfl hinv
      · exact hsame
    exact (ih hu.tail).trans hstep

/-- A slot that is filled stays so until the cache is invalidated. -/
theorem isSome_slot_after (hs : s.slot.isSome = true)
    (hinv : Action.invalidate ∉ later) :
    (s.after later).slot.isSome = true := by
  induction later generalizing s with
  | nil => exact hs
  | cons a later ih =>
    rw [List.mem_cons, not_or] at hinv
    refine ih ?_ hinv.2
    rcases s.act_slot_cases a with ⟨c, hb⟩ | rfl | hsame
    · rw [hb.act.1]
      rfl
    · exact absurd rfl hinv.1
    · rw [hsame, hs]

/-- A set in the slot was brought last. -/
theorem lastBrought_of_slot (hempty : s.slot = none)
    (hslot : (s.after run).slot = some c) : s.LastBrought run (some c) := by
  induction run using List.reverseRecOn with
  | nil =>
    rw [after, List.foldl_nil, hempty] at hslot
    cases hslot
  | append_singleton run a ih =>
    rw [after_concat] at hslot
    by_cases hb : ∃ d, (s.after run).Brings a d
    · obtain ⟨d, hb⟩ := hb
      obtain rfl := Option.some.inj (hb.act.1.symm.trans hslot)
      refine ⟨run, a, [], rfl, hb, fun l b m heq => ?_⟩
      simp at heq
    · rcases (s.after run).act_slot_cases a with hb' | rfl | hsame
      · exact absurd hb' hb
      · cases hslot
      · obtain ⟨before, b, later, rfl, hbrings, hu⟩ :=
          ih (hsame.symm.trans hslot)
        refine ⟨before, b, later ++ [a],
          by simp, hbrings, hu.concat ?_ fun d hd => ?_⟩
        · rintro rfl
          cases hslot
        · exact hb ⟨d, after_append_cons s _ _ _ ▸ hd⟩

/-- After some actions on an empty cache the slot has what they brought last. -/
theorem slot_after_eq_iff (hempty : s.slot = none) :
    (s.after run).slot = oc ↔ s.LastBrought run oc := by
  cases oc with
  | some c =>
    refine ⟨lastBrought_of_slot hempty, ?_⟩
    rintro ⟨before, a, later, rfl, hb, hu⟩
    rw [after_append_cons, hu.slot, after_concat, hb.act.1]
  | none =>
    constructor
    · rintro hnone before a later c rfl hb
      refine Classical.byContradiction fun hinv => ?_
      have hfilled : (s.after (before ++ [a])).slot.isSome = true := by
        rw [after_concat, hb.act.1]
        rfl
      have hsome := isSome_slot_after hfilled hinv
      rw [← after_append_cons, hnone] at hsome
      cases hsome
    · intro hlast
      cases hslot : (s.after run).slot with
      | none => rfl
      | some c =>
        obtain ⟨before, a, later, heq, hb, hu⟩ :=
          lastBrought_of_slot hempty hslot
        obtain ⟨l, m, hsplit⟩ :=
          List.append_of_mem (hlast before a later c heq hb)
        exact absurd rfl (hu l .invalidate m hsplit).1

/-! ## Retrievals that bring nothing -/

/-- An action on a retrieval that is handed nothing leaves the slot as it is. -/
theorem slot_eq_of_not_handed (before later : List Action)
    (hi : a.retrieval? = some i)
    (hnone : (s.after (before ++ a :: later)).handed? i = none) :
    (s.after (before ++ [a])).slot = (s.after before).slot := by
  rw [after_concat]
  rcases (s.after before).act_slot_cases a with ⟨c, hb⟩ | rfl | hsame
  · obtain ⟨_, k, hk, hc⟩ := hb.act
    obtain rfl := Option.some.inj (hi.symm.trans hk)
    obtain ⟨h, phase, hr⟩ := handed?_eq_some_iff.1 hc
    have hstays : (s.after (before ++ a :: later)).retrievals[i]? =
        some ⟨h, phase, some (.returned (.ok c))⟩ := by
      rw [after_append]
      exact ended_after later hr rfl
    rw [handed?_eq_some_iff.2 ⟨h, phase, hstays⟩] at hnone
    cases hnone
  · cases hi
  · exact hsame

/-- How a retrieval ends that is refused an expired set. -/
def expired (expiry : Instant) : Retrieval.Fate :=
  .returned (.error (.credential (.expiredOnReceipt expiry)))

/-- A retrieval is refused an expired set exactly by the end of its assumption
that brings one, by the clock of its handle. -/
theorem Effect.expires (he : s.Effect a t) (hlive : s.IsLive i)
    {expiry : Instant} :
    (∃ r, t.retrievals[i]? = some r ∧ r.fate = some (expired expiry)) ↔
      ∃ h c, a = .settle i (.value c) ∧
        s.retrievals[i]? = some ⟨h, .assuming, none⟩ ∧
        c.expiresAt = some expiry ∧ expiry ≤ s.now h := by
  constructor
  · rintro ⟨r, hr, hf⟩
    have hi := he.ends hlive hr (by rw [hf]; rfl)
    obtain ⟨g, phase, hbefore⟩ := hlive
    cases he with
    | idle =>
      rw [hbefore, Option.some_inj] at hr
      subst hr
      cases hf
    | expire hk hexpiry hle =>
      cases hi
      rw [getElem?_conclude, if_pos rfl, retrievals_failed, hk, Option.map_some,
        Option.some_inj] at hr
      subst hr
      cases hf
      exact ⟨_, _, rfl, hk, hexpiry, hle⟩
    | _ => cases hi <;> simp_all [expired] <;> cases hr <;> cases hf
  · rintro ⟨h, c, rfl, hr, hexpiry, hle⟩
    cases he with
    | idle hidle => exact absurd ⟨h, hr⟩ hidle
    | expire hk hexpiry' =>
      obtain rfl := Option.some.inj (hexpiry.symm.trans hexpiry')
      exact ⟨_, by simp [hk]; rfl, rfl⟩
    | store hk hlt =>
      have hlt := handle_unique hr hk ▸ hlt
      exact absurd hle (Int.not_le.2 (hlt expiry hexpiry))

/-- A retrieval is refused an expired set in a run exactly by the end of its
assumption. -/
theorem expired_after_iff
    (hopen : ∀ v, s.retrievals[i]? = some v → v.fate = none)
    {expiry : Instant} :
    (∃ r, (s.after run).retrievals[i]? = some r ∧
      r.fate = some (expired expiry)) ↔
      ∃ before later h c, run = before ++ .settle i (.value c) :: later ∧
        (s.after before).retrievals[i]? = some ⟨h, .assuming, none⟩ ∧
        c.expiresAt = some expiry ∧ expiry ≤ (s.after before).now h := by
  rw [fated_after_iff hopen]
  constructor
  · rintro ⟨before, a, later, hrun, hlive, hend⟩
    obtain ⟨h, c, rfl, hk, hexpiry, hle⟩ :=
      (((s.after before).effect_act a).expires hlive).1 hend
    exact ⟨before, later, h, c, hrun, hk, hexpiry, hle⟩
  · rintro ⟨before, later, h, c, hrun, hk, hexpiry, hle⟩
    have hlive : (s.after before).IsLive i := ⟨h, _, hk⟩
    exact ⟨before, _, later, hrun, hlive,
      (((s.after before).effect_act _).expires hlive).2 ⟨h, c, rfl, hk,
        hexpiry, hle⟩⟩

/-! ## Another try -/

/-- A retrieval that ends does not keep the guard, and leaves that of another
one alone. -/
theorem guard_of_ended (hg : s.Guarded) (hlive : s.IsLive i)
    (hended : ¬(s.act a).IsLive i) :
    (s.act a).guard = s.guard.filter (· ≠ i) := by
  obtain ⟨h, phase, hr⟩ := hlive
  have he := s.effect_act a
  have hi : a.retrieval? = some i :=
    Decidable.byContradiction fun hi => hended ⟨h, phase, he.other hr hi⟩
  have houtside (hnot : ¬s.Assumes i) : s.guard = s.guard.filter (· ≠ i) := by
    cases hk : s.guard with
    | none => rfl
    | some k =>
      have hne : k ≠ i := fun heq => hnot ((hg i).1 (heq ▸ hk))
      simp [Option.filter, hne]
  have hinside (hin : s.Assumes i) : none = s.guard.filter (· ≠ i) := by
    simp [(hg i).2 hin, Option.filter]
  generalize s.act a = t at he hended ⊢
  cases he with
  | idle => exact absurd ⟨h, phase, hr⟩ hended
  | @miss _ g hk =>
    cases hi
    exact absurd ⟨g, .waiting, by simp [hk]⟩ hended
  | @assume _ g hk =>
    cases hi
    exact absurd ⟨g, .assuming, by simp [hk]⟩ hended
  | hit hk | enterCrashed hk | share hk | acquireCrashed hk =>
    cases hi
    exact houtside (not_assumes hk (by simp))
  | crash hk | refuse hk | expire hk | store hk =>
    cases hi
    exact hinside ⟨_, hk⟩
  | drop =>
    cases hi
    rfl
  | _ => cases hi

theorem enter_of_stale (hr : s.retrievals[i]? = some ⟨h, .started, none⟩)
    (hl : s.lookup h = .stale) :
    s.act (.enter i) =
      ({ s with ledger := s.ledger.enter .credentialRetrieve "refresh" } :
        Cache).setPhase i
        .waiting := by
  simp only [act, hr, enter, hl]

theorem acquire_of_stale (hr : s.retrievals[i]? = some ⟨h, .waiting, none⟩)
    (hfree : s.guard = none) (hl : s.lookup h = .stale) :
    (s.act (.acquire i)).Assumes i := by
  refine ⟨h, ?_⟩
  simp only [act, hr, hfree, acquire, hl]
  simp [hr]

/-- With the guard free, a retrieval that begins on a stale slot comes to assume
the role. -/
theorem assumes_again (hfree : s.guard = none) (hl : s.lookup h = .stale) :
    (s.after [.start h, .enter s.retrievals.length,
      .acquire s.retrievals.length]).Assumes s.retrievals.length := by
  have hstarted : (s.act (.start h)).retrievals[s.retrievals.length]? =
      some ⟨h, .started, none⟩ := by simp [act]
  show (((s.act (.start h)).act (.enter _)).act (.acquire _)).Assumes _
  rw [enter_of_stale hstarted hl]
  exact acquire_of_stale (by simp [hstarted]) hfree hl

/-! ## The slot of a cache -/

/-- Whatever is done to a cache that was unused, and in whatever order:

* the slot has the set brought last by an assumption since the last
  invalidation, or none, and that is what any handle sees of it;
* the actions on a retrieval that has not returned a set have left the slot as
  it was;
* a retrieval was refused an expired set exactly when its assumption brought
  one that was expired by the clock of its handle at that moment;
* when a retrieval ends, however it does, and no other one assumes the role,
  the next one to find the slot stale assumes it again. -/
theorem slot_is_last_brought (request : Request) (clocks : List Instant)
    (run : List Action) :
    (∀ oc, ((unused request clocks).after run).slot = oc ↔
      (unused request clocks).LastBrought run oc) ∧
    (∀ (p : CacheSession) k h, p.cache = (unused request clocks).after run →
      p.handles[k]? = some h →
      ∃ oc, p.apply k .peek = .ok (p, .slot oc) ∧
        (unused request clocks).LastBrought run oc) ∧
    (∀ i r, ((unused request clocks).after run).retrievals[i]? = some r →
      (∀ c, r.fate ≠ some (.returned (.ok c))) →
      ∀ before a later, run = before ++ a :: later → a.retrieval? = some i →
        ((unused request clocks).after (before ++ [a])).slot =
          ((unused request clocks).after before).slot) ∧
    (∀ i expiry,
      (∃ r, ((unused request clocks).after run).retrievals[i]? = some r ∧
        r.fate = some (.returned
          (.error (.credential (.expiredOnReceipt expiry))))) ↔
      ∃ before later h c, run = before ++ .settle i (.value c) :: later ∧
        ((unused request clocks).after before).retrievals[i]? =
          some ⟨h, .assuming, none⟩ ∧
        c.expiresAt = some expiry ∧
        expiry ≤ ((unused request clocks).after before).now h) ∧
    ∀ a i h s t, s = (unused request clocks).after run → t = s.act a →
      s.IsLive i →
      ¬t.IsLive i → (∀ j, s.Assumes j → j = i) →
      (t.slot = none ∨ ∃ c, t.slot = some c ∧
        c.freshAt? (t.now h) (t.window h) = some false) →
      (t.after [.start h, .enter t.retrievals.length,
        .acquire t.retrievals.length]).Assumes
        t.retrievals.length := by
  have hiff (oc : Option CredentialSet) :
      ((unused request clocks).after run).slot = oc ↔
      (unused request clocks).LastBrought run oc := slot_after_eq_iff rfl
  refine ⟨hiff, fun p k h hp hk => ⟨p.cache.slot, ?_, ?_⟩, ?_,
    fun i expiry => ?_, ?_⟩
  · simp only [CacheSession.apply, hk, CacheSession.applyTo]
  · exact (hiff _).1 (by rw [hp])
  · rintro i r hr hnot before a later rfl hi
    refine slot_eq_of_not_handed before later hi ?_
    refine Option.eq_none_iff_forall_ne_some.2 fun c hc => ?_
    obtain ⟨h, phase, hret⟩ := handed?_eq_some_iff.1 hc
    rw [hr, Option.some_inj] at hret
    subst hret
    exact hnot c rfl
  · exact expired_after_iff (by simp [unused])
  · rintro a i h s t rfl rfl hlive hended halone hstale
    have hg : ((unused request clocks).after run).Guarded :=
      Reaches.guarded (reaches_iff_after.2 ⟨run, rfl⟩)
    refine assumes_again ?_ (lookup_eq_stale_iff.2 hstale)
    rw [guard_of_ended hg hlive hended, Option.filter_eq_none_iff]
    intro j hj
    simpa using halone j ((hg j).1 hj)

/-- A retrieval fills the slot, and the next one, whose clock is at the expiry
of that set, is brought the same set again. -/
def stalled : List Action :=
  [.start cautious, .enter 0, .acquire 0, .settle 0 (.value lasting),
    .setClock 0 ⟨100000000000, 0⟩, .start cautious, .enter 1, .acquire 1,
    .settle 1 (.value lasting)]

theorem slot_is_last_brought_stalled :
    (unused plainRequest [.epoch]).LastBrought stalled (some lasting) ∧
      (⟨{ cache := (unused plainRequest [.epoch]).after stalled, plan := [] },
          [cautious]⟩ : CacheSession).apply 0 .peek =
        .ok
          (⟨{ cache := (unused plainRequest [.epoch]).after stalled, plan := [] },
            [cautious]⟩, .slot (some lasting)) ∧
      (∃ before later h c, stalled = before ++ .settle 1 (.value c) :: later ∧
        ((unused plainRequest [.epoch]).after before).retrievals[1]? =
          some ⟨h, .assuming, none⟩ ∧
        c.expiresAt = some ⟨100000000000, 0⟩ ∧
        ⟨100000000000, 0⟩ ≤
          ((unused plainRequest [.epoch]).after before).now h) ∧
      (((unused plainRequest [.epoch]).after stalled).after
        [.start cautious, .enter 2, .acquire 2]).Assumes 2 := by
  obtain ⟨hiff, hpeek, _, hexpired, _⟩ :=
    slot_is_last_brought plainRequest [.epoch] stalled
  have hslot : ((unused plainRequest [.epoch]).after stalled).slot =
      some lasting := rfl
  obtain ⟨oc, hp, hoc⟩ := hpeek
    ⟨{ cache := (unused plainRequest [.epoch]).after stalled, plan := [] },
      [cautious]⟩ 0
    cautious rfl rfl
  obtain rfl := hslot.symm.trans ((hiff oc).2 hoc)
  refine ⟨hoc, hp, (hexpired 1 _).1 ⟨_, rfl, rfl⟩, ?_⟩
  obtain ⟨_, _, _, _, hagain⟩ :=
    slot_is_last_brought plainRequest [.epoch] (stalled.take 8)
  refine hagain (.settle 1 (.value lasting)) 1 cautious _ _ rfl rfl
    ⟨cautious, .assuming, rfl⟩
    ?_ (fun j hj => ?_) (.inr ⟨lasting, rfl, by decide⟩)
  · rintro ⟨h, phase, hr⟩
    cases hr
  · have hg : ((unused plainRequest [.epoch]).after (stalled.take 8)).Guarded :=
      Reaches.guarded (reaches_iff_after.2 ⟨_, rfl⟩)
    exact Option.some.inj ((hg j).2 hj).symm

end CloudAccess.Cache
