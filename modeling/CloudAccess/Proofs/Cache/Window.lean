import CloudAccess.Proofs.Cache.Linear
import CloudAccess.Proofs.Cache.Slot

/-!
# The window of a handle

A handle counts a set as stale for some time before the set expires.  However
much a caller asks for, that time is at most half the session.

* `Request.two_mul_half` bounds half a session, `duration_of_build` ties the
  session of a request to its draft, and `window_of_within` says which windows
  are taken as they are.
* `Keeps` says that a set lasts a whole session from some moment, and that its
  last half session lies in the calendar.  `Keeps.sub?` says when such a set
  becomes stale, `Keeps.fresh` that it is fresh for every handle during half the
  session, and `Keeps.stale` that it is not once its window has begun.
* `Serves` says that a retrieval is handed a set by each of its looks and when
  it is made by itself, and `Renews` that none of its looks ends it, so that it
  assumes the role.
* `fresh_for_half_the_session` puts these together.
-/

namespace CloudAccess

/-! ## Half a session -/

/-- Half a session, in whole nanoseconds. -/
theorem Request.two_mul_half (r : Request) :
    2 * r.duration.half.nanos ≤ r.duration.nanos ∧
      r.duration.nanos ≤ 2 * r.duration.half.nanos + 1 := by
  have hallowed := r.duration_allowed.1
  simp only [Span.le_iff, Request.minDuration, Span.ofSeconds,
    Span.nanosPerSecond] at hallowed
  have hhalf : r.duration.half.nanos = r.duration.nanos / 2 :=
    Int.tdiv_eq_ediv_of_nonneg (by omega)
  omega

/-- A request that is built asks for the session of its draft. -/
theorem duration_of_build {draft : RequestDraft} {generated : SessionName}
    {request : Request} (h : draft.build generated = .ok request) :
    request.duration = draft.duration := by
  unfold RequestDraft.build at h
  split at h
  · cases h
  · split at h
    · cases h
    · split at h
      · cases h
        rfl
      · cases h

namespace Cache

variable {s t : Cache} {h g : Handle} {c : CredentialSet} {i : Nat}
  {expiry received : Instant}

/-- A window of at most half the session is taken as it is asked for. -/
theorem window_of_within (hlow : Span.zero ≤ h.asked)
    (hhigh : 2 * h.asked.nanos ≤ s.request.duration.nanos) :
    s.window h = h.asked := by
  have hhalf := s.request.two_mul_half.2
  rw [Span.le_iff] at hlow
  unfold window Span.clamp
  rw [if_neg, if_neg]
  · rw [Span.lt_iff]
    omega
  · rw [Span.lt_iff]
    omega

/-- No action changes the request of a cache. -/
theorem request_after (s : Cache) (run : List Action) :
    (s.after run).request = s.request := by
  induction run generalizing s with
  | nil => rfl
  | cons a run ih => exact (ih (s.act a)).trans (s.effect_act a).request_eq

/-- Actions that answer no assumption and do not invalidate the cache disturb
nothing. -/
theorem undisturbed_of_forall {later : List Action}
    (hall : ∀ a ∈ later, a ≠ .invalidate ∧ ∀ i o, a ≠ .settle i o) :
    s.Undisturbed later := by
  intro l a m heq
  obtain ⟨hinvalidate, hsettle⟩ := hall a (by simp [heq])
  refine ⟨hinvalidate, fun c hbrings => ?_⟩
  obtain ⟨i, h, ha, _⟩ := hbrings
  exact hsettle i _ ha

/-! ## Sets that last a session -/

/-- A set lasts a whole session from the moment at which it was received, and
its last half session lies in the calendar. -/
structure Keeps (request : Request) (received : Instant) (c : CredentialSet)
    (expiry : Instant) : Prop where
  expires : c.expiresAt = some expiry
  lasts : received.unixNanos + request.duration.nanos ≤ expiry.unixNanos
  inCalendar : expiry.InCalendar
  halfBefore : (expiry.sub? request.duration.half).isSome = true

/-- The moment from which on the set is stale for a handle lies in the
calendar. -/
theorem Keeps.sub? (hk : Keeps s.request received c expiry) (g : Handle) :
    ∃ staleFrom, expiry.sub? (s.window g) = some staleFrom ∧
      staleFrom.unixNanos = expiry.unixNanos - (s.window g).nanos := by
  obtain ⟨half, hhalf⟩ := Option.isSome_iff_exists.1 hk.halfBefore
  obtain ⟨hnanos, hoffset, hfirst⟩ := Instant.sub?_eq_some hhalf
  have hlow := s.zero_le_window g
  have hhigh := s.window_le g
  have hlast := hk.inCalendar
  simp only [Span.le_iff, Span.zero] at hlow hhigh
  simp only [Instant.InCalendar, Instant.localNanos, hnanos, hoffset]
    at hfirst hlast
  have hin : (⟨expiry.unixNanos - (s.window g).nanos, expiry.offset⟩ :
      Instant).InCalendar := by
    simp only [Instant.InCalendar, Instant.localNanos]
    omega
  exact ⟨_, if_pos hin, rfl⟩

/-- While less than half the session has passed, the set is fresh for every
handle. -/
theorem Keeps.fresh (hk : Keeps s.request received c expiry)
    (hslot : s.slot = some c)
    (hyoung : 2 * ((s.now g).unixNanos - received.unixNanos) <
      s.request.duration.nanos) : s.lookup g = .fresh c := by
  obtain ⟨staleFrom, hsub, hnanos⟩ := hk.sub? g
  have hlasts := hk.lasts
  have hhigh := s.window_le g
  have hhalf := s.request.two_mul_half.1
  rw [Span.le_iff] at hhigh
  refine lookup_eq_fresh_iff.2
    ⟨hslot, CredentialSet.freshAt?_eq_true_iff.2 (.inr ?_)⟩
  refine ⟨expiry, staleFrom, hk.expires, hsub, ?_⟩
  rw [Instant.lt_iff]
  omega

/-- Once the window of a handle has begun, the set is stale for it. -/
theorem Keeps.stale (hk : Keeps s.request received c expiry)
    (hslot : s.slot = some c)
    (hlate : expiry.unixNanos - (s.window g).nanos ≤ (s.now g).unixNanos) :
    s.lookup g = .stale := by
  obtain ⟨staleFrom, hsub, hnanos⟩ := hk.sub? g
  refine lookup_eq_stale_iff.2 (.inr ⟨c, hslot, ?_⟩)
  unfold CredentialSet.freshAt?
  rw [hk.expires]
  simp only [hsub, Option.some_inj, decide_eq_false_iff_not, Instant.lt_iff]
  omega

/-! ## Retrievals through a handle -/

theorem acquire_of_fresh (hr : s.retrievals[i]? = some ⟨h, .waiting, none⟩)
    (hfree : s.guard = none) (hl : s.lookup h = .fresh c) :
    s.act (.acquire i) = s.hit.conclude i (.ok c) := by
  simp only [act, hr, hfree, acquire, hl]

/-- A retrieval through a handle is handed a set without an assumption: by its
first look, by its second one, and when it is made by itself. -/
structure Serves (s : Cache) (g : Handle) (c : CredentialSet) : Prop where
  first : ∀ j, s.retrievals[j]? = some ⟨g, .started, none⟩ →
    (s.act (.enter j)).handed? j = some c ∧
      (s.act (.enter j)).metrics.refreshes = s.metrics.refreshes ∧
      (s.act (.enter j)).guard = s.guard
  second : ∀ j, s.retrievals[j]? = some ⟨g, .waiting, none⟩ → s.guard = none →
    (s.act (.acquire j)).handed? j = some c ∧
      (s.act (.acquire j)).metrics.refreshes = s.metrics.refreshes ∧
      (s.act (.acquire j)).guard = none
  alone : ∀ p : CacheSession, p.scene.Idle → p.cache = s →
    (p.retrieveOne g none).2 = .retrieval (some (.returned (.ok c))) ∧
      (p.retrieveOne g none).1.cache.metrics.refreshes = s.metrics.refreshes ∧
      (p.retrieveOne g none).1.scene.sent = p.scene.sent

/-- A retrieval through a handle assumes the role: its first look makes it wait
for the guard, its second one makes it assume the role, and when it is made by
itself it sends one more request. -/
structure Renews (s : Cache) (g : Handle) : Prop where
  first : ∀ j, s.retrievals[j]? = some ⟨g, .started, none⟩ →
    (s.act (.enter j)).retrievals[j]? = some ⟨g, .waiting, none⟩
  second : ∀ j, s.retrievals[j]? = some ⟨g, .waiting, none⟩ → s.guard = none →
    (s.act (.acquire j)).Assumes j ∧
      (s.act (.acquire j)).metrics.refreshes = s.metrics.refreshes + 1
  alone : ∀ p : CacheSession, p.scene.Idle → p.cache = s →
    (p.retrieveOne g none).1.cache.metrics.refreshes = s.metrics.refreshes + 1 ∧
      (p.retrieveOne g none).1.scene.sent = p.scene.sent ++ [s.request]

/-- What a retrieval by itself comes to. -/
theorem retrieveOne_eq {p : CacheSession} (hp : p.scene.Idle) (g : Handle) :
    (p.retrieveOne g none).2 = .retrieval (some (p.scene.holding.serve g).2) ∧
      (p.retrieveOne g none).1.scene.holding = (p.scene.holding.serve g).1 := by
  obtain ⟨hheld, hfates⟩ := PlannedCache.run_alone hp g
  refine ⟨?_, hheld⟩
  show CacheReply.retrieval (Batch.run _).fates.head?.join = _
  rw [hfates]
  rfl

/-- The end of an assumption begins no other one. -/
theorem metrics_land (held : Holding) (g : Handle) (l : Landing) :
    (held.land g l).1.metrics.refreshes = held.metrics.refreshes ∧
      (held.land g l).1.sent = held.sent := by
  have hsettle (held : Holding) (o : Outcome CredentialSet) :
      (held.settle g o).1.metrics.refreshes = held.metrics.refreshes ∧
        (held.settle g o).1.sent = held.sent := by
    unfold Holding.settle
    split
    · exact ⟨rfl, rfl⟩
    · exact ⟨rfl, rfl⟩
    · split <;> exact ⟨rfl, rfl⟩
  unfold Holding.land
  split
  · exact hsettle held _
  · split
    · exact hsettle held _
    · exact hsettle _ _

/-- A handle for which the slot is fresh is served. -/
theorem serves_of_fresh (hl : s.lookup g = .fresh c) : s.Serves g c where
  first j hr := by
    rw [enter_of_fresh hr hl]
    exact ⟨handed?_eq_some_iff.2 ⟨g, .started, by simp [hr]⟩, rfl, rfl⟩
  second j hr hfree := by
    rw [acquire_of_fresh hr hfree hl]
    exact ⟨handed?_eq_some_iff.2 ⟨g, .waiting, by simp [hr]⟩, rfl, hfree⟩
  alone p hp hcache := by
    subst hcache
    obtain ⟨hreply, hheld⟩ := retrieveOne_eq hp g
    have hserve : p.scene.holding.serve g =
        (p.scene.holding.hit, .returned (.ok c)) :=
      Holding.serve_of_fresh hl
    rw [hserve] at hreply hheld
    exact ⟨hreply, congrArg (·.metrics.refreshes) hheld,
      congrArg (·.sent) hheld⟩

/-- A handle for which the slot is stale has the role assumed again. -/
theorem renews_of_stale (hl : s.lookup g = .stale) : s.Renews g where
  first j hr := by
    rw [enter_of_stale hr hl]
    simp [hr]
  second j hr hfree := by
    refine ⟨acquire_of_stale hr hfree hl, ?_⟩
    simp only [act, hr, hfree, acquire, hl]
    rfl
  alone p hp hcache := by
    subst hcache
    obtain ⟨_, hheld⟩ := retrieveOne_eq hp g
    have hserve : p.scene.holding.serve g =
        p.scene.holding.assume.land g p.scene.holding.upcoming :=
        Holding.serve_of_stale hl
    rw [hserve] at hheld
    obtain ⟨hcount, hsent⟩ :=
      metrics_land p.scene.holding.assume g p.scene.holding.upcoming
    exact ⟨(congrArg (·.metrics.refreshes) hheld).trans hcount,
      (congrArg (·.sent) hheld).trans hsent⟩

/-! ## Every window -/

/-- For every request that is built, whatever is done with its cache, and in
whatever order:

* half the session is not negative, so that there are windows between none and
  that; the window of every handle is one of these, and the one that was asked
  for if that is;
* when an assumption brings a set that lasts a whole session from the moment of
  its receipt, by the clock of its handle, that set is in the slot and handed
  out.  As long as it is neither replaced nor invalidated, every retrieval is
  handed this set, through whatever handle, while less than half the session has
  passed by the clock of that handle; and every retrieval assumes the role once
  the window of its handle has begun. -/
theorem fresh_for_half_the_session {draft : RequestDraft}
    {generated : SessionName} {request : Request}
    (hbuilt : draft.build generated = .ok request) (clocks : List Instant)
    {s : Cache} (hs : (unused request clocks).Reaches s) :
    (Span.zero ≤ s.request.duration.half ∧
      ∀ h, Span.zero ≤ s.window h ∧
        2 * (s.window h).nanos ≤ draft.duration.nanos ∧
        (Span.zero ≤ h.asked → 2 * h.asked.nanos ≤ draft.duration.nanos →
          s.window h = h.asked)) ∧
    ∀ i h c expiry, s.retrievals[i]? = some ⟨h, .assuming, none⟩ →
      Keeps request (s.now h) c expiry →
      ((s.act (.settle i (.value c))).slot = some c ∧
        (s.act (.settle i (.value c))).handed? i = some c) ∧
      ∀ later g t, (s.act (.settle i (.value c))).Undisturbed later →
        t = (s.act (.settle i (.value c))).after later →
        (2 * ((t.now g).unixNanos - (s.now h).unixNanos) <
            draft.duration.nanos →
          t.Serves g c) ∧
        (expiry.unixNanos - (t.window g).nanos ≤ (t.now g).unixNanos →
          t.Renews g) := by
  obtain ⟨run, rfl⟩ := reaches_iff_after.1 hs
  have hrequest : ((unused request clocks).after run).request = request :=
    request_after _ run
  have hduration := duration_of_build hbuilt
  generalize (unused request clocks).after run = s at hrequest
  refine ⟨⟨s.request.zero_le_half, fun h =>
    ⟨s.zero_le_window h, ?_, fun hlow hhigh => ?_⟩⟩, ?_⟩
  · have hwindow := s.window_le h
    have hhalf := s.request.two_mul_half.1
    rw [Span.le_iff] at hwindow
    rw [← hduration, ← hrequest]
    omega
  · exact window_of_within hlow (by rw [hrequest, hduration]; exact hhigh)
  · intro i h c expiry hr hk
    have hbrings : s.Brings (.settle i (.value c)) c := by
      refine ⟨i, h, rfl, hr, fun e he => ?_⟩
      rw [hk.expires, Option.mem_some_iff] at he
      subst he
      have hlasts := hk.lasts
      have hallowed := request.duration_allowed.1
      simp only [Span.le_iff, Request.minDuration, Span.ofSeconds,
        Span.nanosPerSecond] at hallowed
      rw [Instant.lt_iff]
      omega
    obtain ⟨hslot, j, hj, hhanded⟩ := hbrings.act
    cases hj
    refine ⟨⟨hslot, hhanded⟩, ?_⟩
    rintro later g t hu rfl
    have hkept := hu.slot.trans hslot
    have hsame : ((s.act (.settle i (.value c))).after later).request =
        request := by
      rw [request_after, (s.effect_act _).request_eq, hrequest]
    rw [← hsame] at hk
    refine ⟨fun hyoung => serves_of_fresh (hk.fresh hkept ?_), fun hlate =>
      renews_of_stale (hk.stale hkept hlate)⟩
    rw [hsame, hduration]
    exact hyoung

/-- A draft for a session of an odd number of nanoseconds. -/
def oddDraft : RequestDraft where
  roleArn := "arn:aws:iam::1:role/reader"
  duration := ⟨900000000001⟩

/-- The request of that draft. -/
def oddRequest : Request :=
  { plainRequest with
    duration := ⟨900000000001⟩, duration_allowed := by decide }

/-- A set that expires when such a session has passed since the start of
1970. -/
def oddSet : CredentialSet :=
  { lasting with expiresAt := some ⟨900000000001, 0⟩ }

/-- A handle that asks for a window of an hour. -/
def greedy : Handle := { asked := .ofSeconds 3600 }

/-- A retrieval through that handle assumes the role. -/
def greedyStart : Cache :=
  (unused oddRequest [.epoch]).after [.start greedy, .enter 0, .acquire 0]

/-- The clock moves on, and another retrieval is started. -/
def greedyAt (nanos : Int) : List Action :=
  [.setClock 0 ⟨nanos, 0⟩, .start greedy]

/-- At the last nanosecond of the first half the set is handed out, and at the
next one the role is assumed. -/
theorem fresh_for_half_the_session_odd :
    let stored := greedyStart.act (.settle 0 (.value oddSet))
    oddDraft.build plainRequest.sessionName = .ok oddRequest ∧
      (2 * (greedyStart.window greedy).nanos ≤ oddDraft.duration.nanos ∧
        (greedyStart.window greedy).nanos = 450000000000) ∧
      ((stored.after (greedyAt 450000000000)).act (.enter 1)).handed? 1 =
      some oddSet ∧
      ((stored.after (greedyAt 450000000001 ++ [.enter 1])).act
        (.acquire 1)).Assumes 1 := by
  have hbuilt : oddDraft.build plainRequest.sessionName = .ok oddRequest := rfl
  have hs : (unused oddRequest [.epoch]).Reaches greedyStart :=
    reaches_iff_after.2 ⟨_, rfl⟩
  obtain ⟨⟨_, hwindows⟩, hbrought⟩ :=
    fresh_for_half_the_session hbuilt [.epoch] hs
  have hkeeps : Keeps oddRequest (greedyStart.now greedy) oddSet
      ⟨900000000001, 0⟩ :=
    ⟨rfl, by decide, by decide, by decide⟩
  obtain ⟨_, hlater⟩ := hbrought 0 greedy oddSet _ rfl hkeeps
  have hyoung := (hlater (greedyAt 450000000000) greedy _
    (undisturbed_of_forall (by simp [greedyAt])) rfl).1 (by decide)
  have hlate := (hlater (greedyAt 450000000001 ++ [.enter 1]) greedy _
    (undisturbed_of_forall (by simp [greedyAt])) rfl).2 (by decide)
  exact ⟨hbuilt, ⟨(hwindows greedy).2.1, rfl⟩, (hyoung.first 1 rfl).1,
    (hlate.second 1 rfl rfl).1⟩

end Cache

end CloudAccess
