import CloudAccess.Proofs.Cache.Window
import CloudAccess.Proofs.Time.Fields

/-!
# Retrievals that crash

A look at the slot subtracts the window of its handle from the expiry of the
set, and crashes where the difference lies before the calendar, although a set
that becomes stale so early is merely stale.

* `StaleBeforeCalendar` says that the set in the slot is such a set for a
  handle, and `lookup_eq_offCalendar_iff` that a look crashes for no other
  reason.
* `Crashes` says that an action ends a retrieval in a crash.  `crashed_act_iff`
  is the step, and `crashed_after_iff` finds it in every run.
* `staleBeforeCalendar_after` says that such a set stays one as long as it is in
  the slot, whatever the clocks read, and `not_staleBeforeCalendar_of_dawn` that
  no set is one which is brought after the first hours of the calendar.
* `crashed_iff_assumption_or_look` puts these together.
-/

namespace CloudAccess

/-! ## One look -/

/-- There is no answer for a set that becomes stale before the calendar, if its
clock can show its expiry. -/
theorem CredentialSet.freshAt?_eq_none_iff {c : CredentialSet} {now : Instant}
    {window : Span} (hshown : ∀ expiry ∈ c.expiresAt, expiry.InCalendar)
    (hwindow : .zero ≤ window) :
    c.freshAt? now window = none ↔ ∃ expiry, c.expiresAt = some expiry ∧
      expiry.localNanos - window.nanos < Instant.calendarStart := by
  rw [← Option.not_isSome_iff_eq_none, freshAt?_isSome_iff]
  unfold InRange
  cases hexpires : c.expiresAt with
  | none => simp
  | some expiry =>
    obtain ⟨-, hend⟩ := hshown expiry hexpires
    have hnonneg : (0 : Int) ≤ window.nanos := hwindow
    simp only [Option.mem_some_iff, forall_eq', Option.some.injEq,
      exists_eq_left']
    omega

namespace Cache

variable {s t : Cache} {a : Action} {run later : List Action} {i : Nat}
  {h : Handle} {c : CredentialSet}

/-- The set in the slot is stale for a handle from a moment before the calendar
on. -/
def StaleBeforeCalendar (s : Cache) (h : Handle) : Prop :=
  ∃ c expiry, s.slot = some c ∧ c.expiresAt = some expiry ∧
    expiry.localNanos - (s.window h).nanos < Instant.calendarStart

/-- The set in the slot, if it expires, does so at an instant that a clock can
show. -/
def SlotShown (s : Cache) : Prop :=
  ∀ c, s.slot = some c → ∀ expiry ∈ c.expiresAt, expiry.Shown

/-- A look crashes exactly when the set becomes stale before the calendar. -/
theorem lookup_eq_offCalendar_iff (hs : s.SlotShown) :
    s.lookup h = .offCalendar ↔ s.StaleBeforeCalendar h := by
  have hlook : s.lookup h = .offCalendar ↔
      ∃ c, s.slot = some c ∧ c.freshAt? (s.now h) (s.window h) = none := by
    unfold lookup
    cases s.slot with
    | none => simp
    | some c =>
      cases hc : c.freshAt? (s.now h) (s.window h) with
      | none => simp [hc]
      | some fresh => cases fresh <;> simp [hc]
  rw [hlook]
  constructor
  · rintro ⟨c, hslot, hnone⟩
    obtain ⟨expiry, hexpiry, hearly⟩ := (CredentialSet.freshAt?_eq_none_iff
      (fun e he => (hs c hslot e he).inCalendar) (s.zero_le_window h)).1 hnone
    exact ⟨c, expiry, hslot, hexpiry, hearly⟩
  · rintro ⟨c, expiry, hslot, hexpiry, hearly⟩
    exact ⟨c, hslot, (CredentialSet.freshAt?_eq_none_iff
      (fun e he => (hs c hslot e he).inCalendar) (s.zero_le_window h)).2
      ⟨expiry, hexpiry, hearly⟩⟩

/-! ## One action -/

/-- A retrieval has ended in a crash. -/
def Crashed (s : Cache) (i : Nat) : Prop :=
  ∃ r, s.retrievals[i]? = some r ∧ r.fate = some .crashed

/-- An action ends a retrieval in a crash: its assumption crashes, or one of its
looks finds a set that becomes stale before the calendar. -/
inductive Crashes (s : Cache) (i : Nat) : Action → Prop
  | assumption {h : Handle}
      (hr : s.retrievals[i]? = some ⟨h, .assuming, none⟩) :
      Crashes s i (.settle i .crashed)
  | firstLook {h : Handle} (hr : s.retrievals[i]? = some ⟨h, .started, none⟩)
      (hl : s.StaleBeforeCalendar h) : Crashes s i (.enter i)
  | secondLook {h : Handle} (hr : s.retrievals[i]? = some ⟨h, .waiting, none⟩)
      (hg : s.guard = none) (hl : s.StaleBeforeCalendar h) :
      Crashes s i (.acquire i)

/-- One action on a live retrieval ends it in a crash exactly when it is such an
action. -/
theorem crashed_act_iff (hs : s.SlotShown) (hlive : s.IsLive i) :
    (s.act a).Crashed i ↔ s.Crashes i a := by
  constructor
  · rintro ⟨r, hr, hf⟩
    have he := s.effect_act a
    generalize s.act a = t at he hr
    have hi := he.ends hlive hr (by rw [hf]; rfl)
    obtain ⟨g, phase, hbefore⟩ := hlive
    cases he with
    | idle =>
      rw [hbefore, Option.some_inj] at hr
      subst hr
      cases hf
    | enterCrashed hk hl =>
      cases hi
      exact .firstLook hk ((lookup_eq_offCalendar_iff hs).1 hl)
    | acquireCrashed hk hg hl =>
      cases hi
      exact .secondLook hk hg ((lookup_eq_offCalendar_iff hs).1 hl)
    | crash hk =>
      cases hi
      exact .assumption hk
    | _ => cases hi <;> simp_all <;> cases hr <;> cases hf
  · intro hcrash
    cases hcrash with
    | assumption hr => exact ⟨_, by simp [act, hr, settle]; rfl, rfl⟩
    | firstLook hr hl =>
      rw [← lookup_eq_offCalendar_iff hs] at hl
      exact ⟨_, by simp [act, hr, enter, hl]; rfl, rfl⟩
    | secondLook hr hg hl =>
      rw [← lookup_eq_offCalendar_iff hs] at hl
      exact ⟨_, by simp [act, hr, hg, acquire, hl]; rfl, rfl⟩

theorem Crashes.isLive (hc : s.Crashes i a) : s.IsLive i := by
  cases hc with
  | assumption hr | firstLook hr | secondLook hr => exact ⟨_, _, hr⟩

/-! ## Every run -/

/-- Every set that actions bring, if it expires, does so at an instant that a
clock can show. -/
def BringsShown (run : List Action) : Prop :=
  ∀ i c, .settle i (.value c) ∈ run → ∀ expiry ∈ c.expiresAt, expiry.Shown

theorem BringsShown.of_append (h : BringsShown (run ++ later)) :
    BringsShown run :=
  fun i c hmem => h i c (List.mem_append_left _ hmem)

variable {request : Request} {clocks : List Instant}

/-- A set in the slot was brought by an assumption, and was not expired then. -/
theorem exists_settle_of_slot
    (hslot : ((unused request clocks).after run).slot = some c) :
    ∃ before i h later, run = before ++ .settle i (.value c) :: later ∧
      ∀ expiry ∈ c.expiresAt, ((unused request clocks).after before).now h <
        expiry := by
  obtain ⟨before, a, later, hrun, ⟨i, h, rfl, _, hlt⟩, _⟩ :=
    lastBrought_of_slot rfl hslot
  exact ⟨before, i, h, later, hrun, hlt⟩

theorem slotShown_after (hrun : BringsShown run) :
    ((unused request clocks).after run).SlotShown := by
  intro c hslot
  obtain ⟨before, i, h, later, rfl, _⟩ := exists_settle_of_slot hslot
  exact hrun i c (by simp)

/-- A retrieval has crashed after a run exactly when one of its actions ended it
so. -/
theorem crashed_after_iff (hrun : BringsShown run) :
    ((unused request clocks).after run).Crashed i ↔
      ∃ before a later, run = before ++ a :: later ∧
        ((unused request clocks).after before).Crashes i a := by
  have hshown {before later : List Action} (heq : run = before ++ later) :
      ((unused request clocks).after before).SlotShown :=
    slotShown_after (heq ▸ hrun).of_append
  have hopen : ∀ v, (unused request clocks).retrievals[i]? = some v →
      v.fate = none := by
    simp [unused]
  rw [Crashed, fated_after_iff hopen]
  constructor
  · rintro ⟨before, a, later, heq, hlive, hend⟩
    exact ⟨before, a, later, heq, (crashed_act_iff (hshown heq) hlive).1 hend⟩
  · rintro ⟨before, a, later, heq, hcrash⟩
    exact ⟨before, a, later, heq, hcrash.isLive,
      (crashed_act_iff (hshown heq) hcrash.isLive).2 hcrash⟩

/-! ## Sets that become stale before the calendar -/

/-- Such a set stays one as long as nothing takes it from the slot, whatever the
clocks read. -/
theorem staleBeforeCalendar_after (hu : s.Undisturbed later) :
    (s.after later).StaleBeforeCalendar h ↔ s.StaleBeforeCalendar h := by
  simp only [StaleBeforeCalendar, hu.slot, window, request_after]

/-- The reading to which an action sets a clock. -/
def Action.reading? : Action → Option Instant
  | .setClock _ now | .addClock now => some now
  | .start _ | .enter _ | .acquire _ | .settle _ _ | .drop _ | .invalidate =>
    none

/-- What is true of the clocks at first and of all readings to which they are
set stays true. -/
theorem clocks_after {P : Instant → Prop} (hs : ∀ now ∈ s.clocks, P now)
    (hrun : ∀ a ∈ run, ∀ now ∈ a.reading?, P now) :
    ∀ now ∈ (s.after run).clocks, P now := by
  induction run generalizing s with
  | nil => exact hs
  | cons a run ih =>
    obtain ⟨ha, hrun⟩ := List.forall_mem_cons.1 hrun
    refine ih ?_ hrun
    have he := s.effect_act a
    generalize s.act a = t at he ⊢
    cases he with
    | setClock =>
      intro now hnow
      rcases List.mem_or_eq_of_mem_set hnow with hold | rfl
      · exact hs now hold
      · exact ha now rfl
    | addClock => exact List.forall_mem_append.2 ⟨hs, by simpa using ha _ rfl⟩
    | _ => exact hs

/-- What is true of the readings of all clocks, and of the start of 1970, is
true of the reading of a handle's clock. -/
theorem now_of_clocks {P : Instant → Prop} (hepoch : P .epoch)
    (hs : ∀ now ∈ s.clocks, P now) (h : Handle) : P (s.now h) := by
  rw [now, List.getD_eq_getElem?_getD]
  cases hclock : s.clocks[h.clock]? with
  | none => exact hepoch
  | some now => exact hs now (List.mem_of_getElem? hclock)

/-- Half the longest session and the greatest offset of a clock after the
calendar begins. -/
def dawn : Instant :=
      ⟨Instant.calendarStart + (21600 + 93599) * Span.nanosPerSecond, 0⟩

/-- A window is at most half the longest session. -/
theorem window_le_longest (s : Cache) (h : Handle) :
    (s.window h).nanos ≤ 21600 * Span.nanosPerSecond := by
  have hhalf := s.request.two_mul_half.1
  have hwindow := s.window_le h
  have hallowed := s.request.duration_allowed.2
  simp only [Span.le_iff, Request.maxDuration, Span.ofSeconds,
    Span.nanosPerSecond] at hwindow hallowed ⊢
  omega

/-- A set that is not expired at a reading from `dawn` on does not become stale
before the calendar. -/
theorem not_staleBeforeCalendar_of_dawn (hrun : BringsShown run)
    (hclocks : ∀ now ∈ clocks, dawn ≤ now)
    (hreadings : ∀ a ∈ run, ∀ now ∈ a.reading?, dawn ≤ now) (h : Handle) :
    ¬((unused request clocks).after run).StaleBeforeCalendar h := by
  rintro ⟨c, expiry, hslot, hexpiry, hearly⟩
  obtain ⟨before, i, g, later, rfl, hlt⟩ := exists_settle_of_slot hslot
  have hoffset : -93599 ≤ expiry.offset :=
    (hrun i c (by simp) expiry hexpiry).le_offset
  have hreading : dawn ≤ ((unused request clocks).after before).now g := by
    refine now_of_clocks (by decide) (clocks_after hclocks fun a ha => ?_) g
    exact hreadings a (List.mem_append_left _ ha)
  have hexpires := hlt expiry hexpiry
  have hwindow := window_le_longest ((unused request clocks).after
    (before ++ .settle i (.value c) :: later)) h
  -- The expiry is later than `dawn`, and a clock shows it earlier by the
  -- greatest offset at most.
  rw [Instant.le_iff, dawn] at hreading
  rw [Instant.lt_iff] at hexpires
  simp only [Instant.localNanos, Span.nanosPerSecond] at hearly hwindow hreading
  omega

/-- A handle that asks for no window has none. -/
theorem window_of_asked (hasked : h.asked ≤ .zero) :
    (s.window h).nanos = 0 := by
  have hhalf := s.request.zero_le_half
  simp only [Span.le_iff, Span.zero] at hasked hhalf
  simp only [window, Span.clamp, Span.lt_iff, Span.zero]
  split
  · rfl
  · rw [if_neg (by omega)]
    omega

/-- Without a window no set becomes stale before the calendar. -/
theorem not_staleBeforeCalendar_of_asked (hs : s.SlotShown)
    (hasked : h.asked ≤ .zero) : ¬s.StaleBeforeCalendar h := by
  rintro ⟨c, expiry, hslot, hexpiry, hearly⟩
  have hwindow : (s.window h).nanos = 0 := window_of_asked hasked
  have hstart := (hs c hslot expiry hexpiry).inCalendar.1
  omega

/-! ## Every cache -/

/-- Whatever is done to a cache that was unused, and in whatever order, if the
sets that are brought expire at instants that a clock can show:

* a retrieval has crashed exactly when its assumption did, or when one of its
  looks found a set that becomes stale before the calendar by its own window;
* such a set stays one, and crashes the looks of all later retrievals with that
  window, until it is replaced or the cache is invalidated, whatever the clocks
  read;
* there is none for a handle that has no window;
* if no clock ever reads less than half the longest session and the greatest
  offset after the calendar begins, a retrieval has crashed exactly when its
  assumption did. -/
theorem crashed_iff_assumption_or_look (request : Request)
    (clocks : List Instant) (run : List Action) (hrun : BringsShown run) :
    (∀ i, ((unused request clocks).after run).Crashed i ↔
      ∃ before a later, run = before ++ a :: later ∧
        ((unused request clocks).after before).Crashes i a) ∧
    (∀ h later, ((unused request clocks).after run).Undisturbed later →
      (((unused request clocks).after (run ++ later)).StaleBeforeCalendar h ↔
        ((unused request clocks).after run).StaleBeforeCalendar h)) ∧
    (∀ h : Handle, h.asked ≤ .zero →
      ¬((unused request clocks).after run).StaleBeforeCalendar h) ∧
    ((∀ now ∈ clocks, dawn ≤ now) →
      (∀ a ∈ run, ∀ now ∈ a.reading?, dawn ≤ now) →
      ∀ i, ((unused request clocks).after run).Crashed i ↔
        ∃ before h later, run = before ++ .settle i .crashed :: later ∧
          ((unused request clocks).after before).retrievals[i]? =
            some ⟨h, .assuming, none⟩) := by
  have hslot : ((unused request clocks).after run).SlotShown :=
    slotShown_after hrun
  refine ⟨fun i => crashed_after_iff hrun, fun h later hu => ?_,
    fun h => not_staleBeforeCalendar_of_asked hslot,
    fun hclocks hreadings i => ?_⟩
  · rw [after_append]
    exact staleBeforeCalendar_after hu
  · have hnever {before later : List Action} (heq : run = before ++ later)
        (h : Handle) :
        ¬((unused request clocks).after before).StaleBeforeCalendar h :=
      not_staleBeforeCalendar_of_dawn (heq ▸ hrun).of_append hclocks
        (fun a ha => hreadings a (heq ▸ List.mem_append_left _ ha)) h
    rw [crashed_after_iff hrun]
    constructor
    · rintro ⟨before, a, later, heq, hcrash⟩
      cases hcrash with
      | assumption hr => exact ⟨before, _, later, heq, hr⟩
      | firstLook _ hl | secondLook _ _ hl => exact absurd hl (hnever heq _)
    · rintro ⟨before, h, later, heq, hr⟩
      exact ⟨before, _, later, heq, .assumption hr⟩

/-- A handle that asks for a window of seven and a half minutes. -/
def wary : Handle := { asked := .ofSeconds 450 }

/-- A set that expires a second after the calendar begins. -/
def ancient : CredentialSet :=
  { lasting with
    expiresAt := some ⟨Instant.calendarStart + Span.nanosPerSecond, 0⟩ }

/-- A clock that shows the first reading of the calendar. -/
def firstReading : Instant := ⟨Instant.calendarStart, 0⟩

/-- A retrieval assumes the role and is handed the set. -/
def fill : List Action :=
      [.start wary, .enter 0, .acquire 0, .settle 0 (.value ancient)]

/-- Another two retrievals look at the slot, the second one when the clock has
moved on to 1970. -/
def lookAgain : List Action :=
  [.start wary, .enter 1, .setClock 0 .epoch, .start wary, .enter 2]

theorem bringsShown_fill : BringsShown (fill ++ lookAgain) := by
  intro i c hmem expiry hexpiry
  simp only [fill, lookAgain, List.cons_append, List.nil_append, List.mem_cons,
    reduceCtorEq,
    Action.settle.injEq, Outcome.value.injEq, false_or, or_false,
    List.not_mem_nil] at hmem
  obtain ⟨-, rfl⟩ := hmem
  cases hexpiry
  exact ⟨by decide, by decide, by decide⟩

theorem crashed_iff_assumption_or_look_fill :
    BringsShown (fill ++ lookAgain) ∧
      (∃ before a later, fill ++ lookAgain = before ++ a :: later ∧
        ((unused plainRequest [firstReading]).after before).Crashes 2 a) ∧
      ((unused plainRequest [firstReading]).after
        (fill ++ lookAgain)).StaleBeforeCalendar wary ∧
      ¬((unused plainRequest [firstReading]).after
        (fill ++ lookAgain)).StaleBeforeCalendar {} ∧
      ¬((unused plainRequest [.epoch]).after
        (fill ++ lookAgain)).Crashed 1 := by
  obtain ⟨-, hwedge, -⟩ :=
    crashed_iff_assumption_or_look plainRequest [firstReading] fill
    bringsShown_fill.of_append
  obtain ⟨hcrashed, -, hnone, -⟩ :=
    crashed_iff_assumption_or_look plainRequest [firstReading]
    (fill ++ lookAgain) bringsShown_fill
  obtain ⟨-, -, -, hlate⟩ :=
    crashed_iff_assumption_or_look plainRequest [.epoch]
    (fill ++ lookAgain) bringsShown_fill
  have hundisturbed : ((unused plainRequest [firstReading]).after
      fill).Undisturbed lookAgain :=
    undisturbed_of_forall (by simp [lookAgain])
  refine ⟨bringsShown_fill, (hcrashed 2).1 ⟨_, rfl, rfl⟩,
    (hwedge wary _ hundisturbed).2 ?_, hnone {} (by decide), fun hcrash => ?_⟩
  · exact ⟨ancient, _, rfl, rfl, by decide⟩
  · obtain ⟨before, h, later, heq, -⟩ :=
      (hlate (by decide) (by simp [fill, lookAgain, Action.reading?]; decide)
        1).1 hcrash
    have hmem : Action.settle 1 .crashed ∈ fill ++ lookAgain := by simp [heq]
    simp [fill, lookAgain] at hmem

/-- Retrievals crash although no assumption did: the set was accepted and handed
out once, and every later look at it crashes, also when the clock shows that it
expired long ago. -/
theorem crashed_by_look :
    (∀ i, Action.settle i .crashed ∉ fill ++ lookAgain) ∧
      firstReading.Shown ∧ Instant.epoch.Shown ∧
      BringsShown (fill ++ lookAgain) ∧
      ((unused plainRequest [firstReading]).after fill).handed? 0 =
        some ancient ∧
      ((unused plainRequest [firstReading]).after
        (fill ++ lookAgain)).Crashed 1 ∧
      ((unused plainRequest [firstReading]).after
        (fill ++ lookAgain)).Crashed 2 :=
  ⟨by simp [fill, lookAgain], ⟨by decide, by decide, by decide⟩,
    ⟨by decide, by decide, by decide⟩, bringsShown_fill, rfl, ⟨_, rfl, rfl⟩,
    ⟨_, rfl, rfl⟩⟩

end Cache

end CloudAccess
