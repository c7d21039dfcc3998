import CloudAccess.Proofs.Cache.Counts
import CloudAccess.Proofs.Cache.Rush
import Mathlib.Data.List.Perm.Subperm

/-!
# Retrievals that are started together share what is brought

Retrievals that are started together on a stale cache make one assumption after
another until one of them brings a set.  Who made an assumption that failed is
told how it failed, and everybody else is handed the set.

* `Course` is the invariant: as long as the assumptions fail the slot stays
  stale, and once one has brought a set that stays fresh no more are made.
  `Rush.course` derives it, with one lemma for each thing that can happen.
* `Course.length_log`, `Course.handed`, `Course.refused` and `Course.metrics_eq`
  say what it comes to when the rush is over.
* `coalesces` puts these together.
-/

namespace CloudAccess.Cache

variable {s t u start : Cache} {h g : Handle} {c : CredentialSet}
  {i base j : Nat} {log : List Receipt} {phase : Retrieval.Phase}
  {v : Retrieval} {handles : List Handle}

/-! ## The course of a rush -/

/-- Where retrievals have got that were started together from `start` on, of
which the `j`-th assumption is the first that does not fail and brings `c`.  The
retrievals from number `base` on are theirs. -/
structure Course (start : Cache) (h : Handle) (c : CredentialSet) (base j : Nat)
    (log : List Receipt) (t : Cache) : Prop where
  request : t.request = start.request
  guarded : t.Guarded
  live : ∀ i g phase, t.retrievals[i]? = some ⟨g, phase, none⟩ →
    base ≤ i ∧ t.Alike g h
  distinct : (log.map Receipt.retrieval).Nodup
  settled : ∀ (k : Nat) (r : Receipt), log[k]? = some r →
    base ≤ r.retrieval ∧ ∃ g result,
    t.retrievals[r.retrieval]? = some ⟨g, .assuming, some (.returned result)⟩ ∧
      (∀ e, k + 1 < j → r.Refuses start.request h e → result = .error e) ∧
      (k + 1 = j → result = .ok c)
  unsettled : ∀ i v, base ≤ i → t.retrievals[i]? = some v →
    i ∉ log.map Receipt.retrieval → v.fate = none ∨
      log.length = j ∧ v.phase ≠ .assuming ∧ v.fate = some (.returned (.ok c))
  stage : log.length < j ∧ t.lookup h = .stale ∨
    log.length = j ∧ t.lookup h = .fresh c ∧ t.guard = none
  refreshes : t.metrics.refreshes =
    start.metrics.refreshes + log.length + t.guard.isSome.toNat
  failures : t.metrics.failures =
    start.metrics.failures + min log.length (j - 1)

/-- A retrieval that is under way has no receipt. -/
theorem Course.not_mem (hu : Course start h c base j log u)
    (hi : u.retrievals[i]? = some ⟨g, phase, none⟩) :
    i ∉ log.map Receipt.retrieval := by
  intro hin
  obtain ⟨r, hr, rfl⟩ := List.mem_map.1 hin
  obtain ⟨k, hk⟩ := List.getElem?_of_mem hr
  obtain ⟨-, _, _, hended, -⟩ := hu.settled k r hk
  rw [hi] at hended
  cases hended

/-- A retrieval goes on, or it is handed the set of somebody else. -/
theorem Course.moves (hu : Course start h c base j log u)
    (hi : u.retrievals[i]? = some ⟨g, phase, none⟩)
    (hrequest : t.request = u.request) (hguarded : t.Guarded)
    (hv : t.retrievals[i]? = some v) (hhandle : v.handle = g)
    (hother : ∀ k, i ≠ k → t.retrievals[k]? = u.retrievals[k]?)
    (hfate : v.fate = none ∨ log.length = j ∧ v.phase ≠ .assuming ∧
      v.fate = some (.returned (.ok c)))
    (hstage : log.length < j ∧ t.lookup h = .stale ∨ log.length = j ∧
      t.lookup h = .fresh c ∧ t.guard = none)
    (hrefreshes : t.metrics.refreshes =
      start.metrics.refreshes + log.length + t.guard.isSome.toNat)
    (hfailures : t.metrics.failures = u.metrics.failures) :
    Course start h c base j log t where
  request := hrequest.trans hu.request
  guarded := hguarded
  live k g' phase' hk := by
    by_cases heq : i = k
    · subst heq
      rw [hv] at hk
      cases hk
      subst hhandle
      exact (hu.live i _ _ hi).imp_right fun ha => ha.of_request_eq hrequest
    · rw [hother k heq] at hk
      exact (hu.live k _ _ hk).imp_right fun ha => ha.of_request_eq hrequest
  distinct := hu.distinct
  settled k r hk := by
    have hne : i ≠ r.retrieval := by
      rintro rfl
      exact hu.not_mem hi (List.mem_map_of_mem (List.mem_of_getElem? hk))
    rw [hother _ hne]
    exact hu.settled k r hk
  unsettled k w hbase hk hnot := by
    by_cases heq : i = k
    · subst heq
      rw [hv] at hk
      cases hk
      exact hfate
    · rw [hother k heq] at hk
      exact hu.unsettled k w hbase hk hnot
  stage := hstage
  refreshes := hrefreshes
  failures := hfailures.trans hu.failures

/-- A retrieval that finds a fresh set finds that of the assumption that did not
fail. -/
theorem Course.of_fresh (hu : Course start h c base j log u) {d : CredentialSet}
    (hi : u.retrievals[i]? = some ⟨g, phase, none⟩)
    (hl : u.lookup g = .fresh d) :
    d = c ∧ log.length = j ∧ u.lookup h = .fresh c ∧ u.guard = none := by
  rw [(hu.live i g phase hi).2.lookup_eq] at hl
  rcases hu.stage with ⟨-, hstale⟩ | ⟨hj, hfresh, hguard⟩
  · rw [hl] at hstale
    cases hstale
  · rw [hl] at hfresh
    cases hfresh
    exact ⟨rfl, hj, hl, hguard⟩

/-- No retrieval sees a set whose freshness cannot be told. -/
theorem Course.not_offCalendar (hu : Course start h c base j log u)
    (hi : u.retrievals[i]? = some ⟨g, phase, none⟩) :
    u.lookup g ≠ .offCalendar := by
  intro hl
  rw [(hu.live i g phase hi).2.lookup_eq] at hl
  rcases hu.stage with ⟨-, hstale⟩ | ⟨-, hfresh, -⟩
  · rw [hl] at hstale
    cases hstale
  · rw [hl] at hfresh
    cases hfresh

/-- A first or a second look keeps the course. -/
theorem Course.look (hu : Course start h c base j log u) {a : Action}
    (ha : a = .enter i ∨ a = .acquire i) :
    Course start h c base j log (u.act a) := by
  have he := u.effect_act a
  have hguarded := he.guarded hu.guarded
  generalize u.act a = t at he hguarded
  cases he with
  | idle => exact hu
  | @hit i g d hi hl =>
    obtain ⟨rfl, hj, hfresh⟩ := hu.of_fresh hi hl
    exact hu.moves hi rfl hguarded
      (v := ⟨g, .started, some (.returned (.ok d))⟩)
      (by simp [hi]) rfl (fun k hk => by simp [hk]) (.inr ⟨hj, by simp, rfl⟩)
      (.inr ⟨hj, hfresh⟩) hu.refreshes rfl
  | @share i g d hi _ hl =>
    obtain ⟨rfl, hj, hfresh⟩ := hu.of_fresh hi hl
    exact hu.moves hi rfl hguarded
      (v := ⟨g, .waiting, some (.returned (.ok d))⟩)
      (by simp [hi]) rfl (fun k hk => by simp [hk]) (.inr ⟨hj, by simp, rfl⟩)
      (.inr ⟨hj, hfresh⟩) hu.refreshes rfl
  | @miss i g hi hl =>
    exact hu.moves hi rfl hguarded (v := ⟨g, .waiting, none⟩) (by simp [hi]) rfl
      (fun k hk => by simp [hk]) (.inl rfl) hu.stage hu.refreshes rfl
  | @assume i g hi hfree hl =>
    rw [(hu.live i g _ hi).2.lookup_eq] at hl
    have hbefore : log.length < j := by
      rcases hu.stage with ⟨hlt, -⟩ | ⟨-, hfresh, -⟩
      · exact hlt
      · rw [hl] at hfresh
        cases hfresh
    refine hu.moves hi rfl hguarded (v := ⟨g, .assuming, none⟩)
      (by simp [hi]) rfl
      (fun k hk => by simp [hk]) (.inl rfl) (.inl ⟨hbefore, hl⟩) ?_ rfl
    have hcount := hu.refreshes
    rw [hfree] at hcount
    show u.metrics.refreshes + 1 = _
    rw [hcount]
    rfl
  | enterCrashed hi hl | acquireCrashed hi _ hl =>
    exact absurd hl (hu.not_offCalendar hi)
  | _ => rcases ha with ha | ha <;> cases ha

/-- The assumption of a retrieval ends, and the retrieval with it. -/
theorem Course.settles (hu : Course start h c base j log u)
    (hi : u.retrievals[i]? = some ⟨g, .assuming, none⟩)
    {answer : Outcome CredentialSet} {result : Except AccessError CredentialSet}
    (hrequest : t.request = u.request) (hguarded : t.Guarded)
    (hv : t.retrievals[i]? = some ⟨g, .assuming, some (.returned result)⟩)
    (hother : ∀ k, i ≠ k → t.retrievals[k]? = u.retrievals[k]?)
    (hguard : t.guard = none)
    (hrefused : ∀ e, log.length + 1 < j →
      Receipt.Refuses start.request h ⟨i, answer, u.clocks⟩ e →
      result = .error e)
    (hsupplied : log.length + 1 = j → result = .ok c)
    (hstage : log.length + 1 < j ∧ t.lookup h = .stale ∨ log.length + 1 = j ∧
      t.lookup h = .fresh c)
    (hrefreshes : t.metrics.refreshes = u.metrics.refreshes)
    (hfailures : t.metrics.failures =
      start.metrics.failures + min (log.length + 1) (j - 1)) :
    Course start h c base j (log ++ [⟨i, answer, u.clocks⟩]) t where
  request := hrequest.trans hu.request
  guarded := hguarded
  live k g' phase' hk := by
    have hne : i ≠ k := by
      rintro rfl
      rw [hv] at hk
      cases hk
    rw [hother k hne] at hk
    exact (hu.live k _ _ hk).imp_right fun ha => ha.of_request_eq hrequest
  distinct := by
    rw [List.map_append, List.nodup_append]
    refine ⟨hu.distinct, List.nodup_singleton i, fun k hk k' hk' heq => ?_⟩
    rw [List.map_singleton, List.mem_singleton] at hk'
    have hsame : k = i := heq.trans hk'
    exact hu.not_mem hi (hsame ▸ hk)
  settled k r hk := by
    rcases Nat.lt_or_ge k log.length with hlt | hge
    · rw [List.getElem?_append_left hlt] at hk
      have hne : i ≠ r.retrieval := by
        rintro rfl
        exact hu.not_mem hi (List.mem_map_of_mem (List.mem_of_getElem? hk))
      rw [hother _ hne]
      exact hu.settled k r hk
    · rw [List.getElem?_append_right hge, List.getElem?_singleton] at hk
      split at hk
      · rename_i hzero
        obtain rfl : k = log.length := by omega
        cases hk
        exact ⟨(hu.live i g _ hi).1, g, result, hv, hrefused, hsupplied⟩
      · cases hk
  unsettled k w hbase hk hnot := by
    rw [List.map_append, List.mem_append, not_or, List.map_singleton,
      List.mem_singleton] at hnot
    rw [hother k (Ne.symm hnot.2)] at hk
    -- no retrieval has been handed the set of another one before
    have hheld := (hu.guarded i).2 ⟨g, hi⟩
    rcases hu.unsettled k w hbase hk hnot.1 with hnone | ⟨hj, -, -⟩
    · exact .inl hnone
    · rcases hu.stage with ⟨hlt, -⟩ | ⟨-, -, hfree⟩
      · omega
      · rw [hfree] at hheld
        cases hheld
  stage := by
    rw [List.length_append, List.length_singleton]
    exact hstage.imp_right fun ⟨hj, hfresh⟩ => ⟨hj, hfresh, hguard⟩
  refreshes := by
    have hheld := (hu.guarded i).2 ⟨g, hi⟩
    have hcount := hu.refreshes
    rw [hheld] at hcount
    rw [hrefreshes, hcount, hguard, List.length_append]
    rfl
  failures := by
    rw [List.length_append, List.length_singleton]
    exact hfailures

/-- The end of an assumption keeps the course: one that comes before the `j`-th
fails, and the `j`-th brings the set. -/
theorem Course.settle (hu : Course start h c base j log u) (hi : u.Assumes i)
    {answer : Outcome CredentialSet}
    (hfails : log.length + 1 < j →
      ∃ e, Receipt.Refuses start.request h ⟨i, answer, u.clocks⟩ e)
    (hbrings : log.length + 1 = j →
      answer = .value c ∧ c.freshAt? (u.now h) (u.window h) = some true) :
    Course start h c base j (log ++ [⟨i, answer, u.clocks⟩])
      (u.act (.settle i answer)) := by
  have hheld := (hu.guarded i).2 hi
  have hstage : log.length < j ∧ u.lookup h = .stale := by
    rcases hu.stage with hbefore | ⟨-, -, hfree⟩
    · exact hbefore
    · rw [hfree] at hheld
      cases hheld
  have hmin : min log.length (j - 1) = log.length := by omega
  have hfailures := hu.failures
  rw [hmin] at hfailures
  obtain ⟨g, hg⟩ := hi
  have halike := (hu.live i g _ hg).2
  have hguarded := (u.effect_act (.settle i answer)).guarded hu.guarded
  rw [act_settle hg] at hguarded ⊢
  rcases Nat.lt_or_ge (log.length + 1) j with hlt | hge
  · obtain ⟨e, he⟩ := hfails hlt
    rw [settle_of_refuses halike (hu.request ▸ he)] at hguarded ⊢
    refine hu.settles hg rfl hguarded (by simp [hg])
      (fun k hk => by simp [hk]) rfl
      (fun e' _ he' => congrArg _ (he.unique he')) (fun heq => by omega)
      (.inl ⟨hlt, hstage.2⟩) rfl ?_
    show u.metrics.failures + 1 = _
    omega
  · have heq : log.length + 1 = j := by omega
    obtain ⟨rfl, hfresh⟩ := hbrings heq
    rw [settle_of_fresh halike hfresh] at hguarded ⊢
    refine hu.settles hg rfl hguarded (by simp [hg])
      (fun k hk => by simp [hk]) rfl
      (fun e hlt => by omega) (fun _ => rfl) (.inr ⟨heq, ?_⟩) rfl ?_
    · exact lookup_eq_fresh_iff.2 ⟨rfl, hfresh⟩
    · show u.metrics.failures = _
      omega

/-- The clocks move on, and the set that was brought is still fresh. -/
theorem Course.forward (hu : Course start h c base j log u) {clock : Nat}
    {now : Instant} (hle : u.now h ≤ (u.act (.setClock clock now)).now h)
    (hfresh : log.length = j → c.freshAt? ((u.act (.setClock clock now)).now h)
      (u.window h) = some true) :
    Course start h c base j log (u.act (.setClock clock now)) where
  request := hu.request
  guarded := hu.guarded
  live := hu.live
  distinct := hu.distinct
  settled := hu.settled
  unsettled := hu.unsettled
  stage := by
    refine hu.stage.imp (fun ⟨hlt, hstale⟩ => ⟨hlt, ?_⟩) fun ⟨hj, hl, hfree⟩ =>
      ⟨hj, ?_, hfree⟩
    · exact lookup_stale_of_le (s := u) rfl rfl hle hstale
    · exact lookup_eq_fresh_iff.2 ⟨(lookup_eq_fresh_iff.1 hl).1, hfresh hj⟩
  refreshes := hu.refreshes
  failures := hu.failures

/-- A rush whose assumptions before the `j`-th fail, and whose `j`-th brings a
set that is still fresh, takes its course. -/
theorem Rush.course (hrush : start.Rush h log t) (hj : 0 < j)
    (hbegin : Course start h c base j [] start)
    (hfails : ∀ (k : Nat) (r : Receipt), log[k]? = some r → k + 1 < j →
      ∃ e, r.Refuses start.request h e)
    (hbrings : ∀ r, log[j - 1]? = some r →
      r.answer = .value c ∧ c.freshAt? (t.now h) (t.window h) = some true) :
    Course start h c base j log t := by
  induction hrush with
  | refl => exact hbegin
  | enter hrush i ih =>
    rename_i log u
    have he := u.effect_act (.enter i)
    rw [now, window, he.clocks_eq rfl, he.request_eq] at hbrings
    exact (ih hfails hbrings).look (.inl rfl)
  | acquire hrush i ih =>
    rename_i log u
    have he := u.effect_act (.acquire i)
    rw [now, window, he.clocks_eq rfl, he.request_eq] at hbrings
    exact (ih hfails hbrings).look (.inr rfl)
  | settle hrush hi answer ih =>
    rename_i log u i
    have he := u.effect_act (.settle i answer)
    rw [now, window, he.clocks_eq rfl, he.request_eq] at hbrings
    have hbefore {k : Nat} {r : Receipt} (hk : log[k]? = some r) :
        (log ++ [⟨i, answer, u.clocks⟩])[k]? = some r :=
      (List.getElem?_append_left (List.getElem?_eq_some_iff.1 hk).1).trans hk
    have hlast : (log ++ [⟨i, answer, u.clocks⟩])[log.length]? =
        some ⟨i, answer, u.clocks⟩ := by
      simp
    refine (ih (fun k r hk => hfails k r (hbefore hk)) fun r hk =>
      hbrings r (hbefore hk)).settle
      hi (hfails _ _ hlast) fun heq => hbrings ⟨i, answer, u.clocks⟩ ?_
    rw [← heq]
    exact hlast
  | forward hrush hle ih =>
    rename_i log u clock now
    have hearlier := ih hfails fun r hk =>
      (hbrings r hk).imp_right (CredentialSet.freshAt?_of_le hle)
    refine hearlier.forward hle fun heq => ?_
    have hlt : j - 1 < log.length := by omega
    exact (hbrings _ (List.getElem?_eq_getElem hlt)).2

/-! ## The start -/

/-- Retrievals that are started on a cache without one under way, which is stale
for all of them, are at the start of their course. -/
theorem course_startAll (hguarded : s.Guarded) (hidle : ∀ i, ¬s.IsLive i)
    (halike : ∀ g ∈ handles, s.Alike g h) (hstale : s.lookup h = .stale)
    (hj : 0 < j) (c : CredentialSet) :
    Course (s.startAll handles) h c s.retrievals.length j []
      (s.startAll handles) := by
  have hfree : (s.startAll handles).guard = none := by
    rw [startAll_eq]
    exact hguarded.free hidle
  exact {
    request := rfl
    guarded := fun i => by
      rw [hfree]
      refine ⟨nofun, fun ⟨g, hi⟩ => ?_⟩
      cases (new_of_live hidle hi).2.2
    live := fun i g phase hi => by
      obtain ⟨hge, hg, -⟩ := new_of_live hidle hi
      rw [startAll_eq]
      exact ⟨hge, halike g hg⟩
    distinct := List.nodup_nil
    settled := nofun
    unsettled := fun i v hbase hi _ => by
      rw [startAll_eq, List.getElem?_append_right hbase, List.getElem?_map]
        at hi
      obtain ⟨h, -, rfl⟩ := Option.map_eq_some_iff.1 hi
      exact .inl rfl
    stage := by
      rw [startAll_eq]
      exact .inl ⟨hj, hstale⟩
    refreshes := by rw [hfree]; rfl
    failures := by simp }

/-! ## The end -/

/-- Whoever has come to a result was handed a set by somebody else or has begun
an assumption. -/
theorem Counted.hits_add (hs : s.Counted) (ht : t.Counted)
    (hguarded : s.Guarded) (hguarded' : t.Guarded) (hfree : s.guard = none)
    (hfree' : t.guard = none) {news : List Retrieval}
    (heq : t.retrievals = s.retrievals ++ news)
    (hnews : ∀ v ∈ news, v.returned = true) :
    t.metrics.hits + t.metrics.refreshes =
      s.metrics.hits + s.metrics.refreshes + news.length := by
  have hbefore := countP_counted hs.own
  have hafter := countP_counted ht.own
  rw [hguarded.countP_assumes, hfree, ← hs.reading_eq, ← hs.reading_eq]
    at hbefore
  rw [hguarded'.countP_assumes, hfree', ← ht.reading_eq, ← ht.reading_eq, heq,
    List.countP_append, List.countP_append, List.countP_eq_length.2 hnews]
    at hafter
  have hnone : news.countP Retrieval.lost = 0 := by
    refine List.countP_eq_zero.2 fun v hv hlost => ?_
    simp [Retrieval.lost, hnews v hv] at hlost
  simp only [reading, Metrics.show] at hbefore hafter
  have hzero : (none : Option Nat).isSome.toNat = 0 := rfl
  omega

/-- Every receipt is that of a retrieval of the rush. -/
theorem Course.bounds_of_mem (hu : Course start h c base j log u)
    (hi : i ∈ log.map Receipt.retrieval) :
    base ≤ i ∧ i < u.retrievals.length := by
  obtain ⟨r, hr, rfl⟩ := List.mem_map.1 hi
  obtain ⟨k, hk⟩ := List.getElem?_of_mem hr
  obtain ⟨hbase, g, result, hended, -⟩ := hu.settled k r hk
  exact ⟨hbase, (List.getElem?_eq_some_iff.1 hended).1⟩

/-- Nobody is left behind by a rush that is over. -/
theorem Course.ended (hu : Course start h c base j log u)
    (hover : ∀ i, ¬u.IsLive i) (hbase : base ≤ i)
    (hi : u.retrievals[i]? = some v) :
    i ∈ log.map Receipt.retrieval ∨
      log.length = j ∧ v.phase ≠ .assuming ∧
      v.fate = some (.returned (.ok c)) := by
  refine or_iff_not_imp_left.2 fun hnot => ?_
  rcases hu.unsettled i v hbase hi hnot with hnone | hhanded
  · obtain ⟨g, phase, fate⟩ := v
    subst hnone
    exact absurd ⟨g, phase, hi⟩ (hover i)
  · exact hhanded

theorem Course.returned (hu : Course start h c base j log u)
    (hover : ∀ i, ¬u.IsLive i) (hbase : base ≤ i)
    (hi : u.retrievals[i]? = some v) : v.returned = true := by
  rcases hu.ended hover hbase hi with hin | ⟨-, -, hfate⟩
  · obtain ⟨r, hr, rfl⟩ := List.mem_map.1 hin
    obtain ⟨k, hk⟩ := List.getElem?_of_mem hr
    obtain ⟨-, g, result, hended, -⟩ := hu.settled k r hk
    rw [hended] at hi
    cases hi
    rfl
  · simp [Retrieval.returned, Retrieval.result?, hfate]

/-- There are as many assumptions as are needed, or as there are retrievals to
make them. -/
theorem Course.length_log (hu : Course start h c base j log u)
    (hover : ∀ i, ¬u.IsLive i) {n : Nat}
    (hlength : u.retrievals.length = base + n) : log.length = min j n := by
  have hle : log.length ≤ n := by
    have hsub : log.map Receipt.retrieval ⊆ List.range' base n := fun i hi => by
      rw [List.mem_range'_1, ← hlength]
      exact hu.bounds_of_mem hi
    have hcard := (hu.distinct.subperm hsub).length_le
    rwa [List.length_map, List.length_range'] at hcard
  rcases hu.stage with ⟨hlt, -⟩ | ⟨hj, -⟩
  · -- the set was never brought, so that everybody has made an assumption
    have hsub : List.range' base n ⊆ log.map Receipt.retrieval := fun i hi => by
      rw [List.mem_range'_1, ← hlength] at hi
      rcases hu.ended hover hi.1 (List.getElem?_eq_getElem hi.2) with
        hin | ⟨hj, -⟩
      · exact hin
      · omega
    have hnodup : (List.range' base n).Nodup := List.nodup_range' 1
    have hcard := (hnodup.subperm hsub).length_le
    rw [List.length_map, List.length_range'] at hcard
    omega
  · omega

/-- Whoever made no assumption that failed was handed the set. -/
theorem Course.handed (hu : Course start h c base j log u)
    (hover : ∀ i, ¬u.IsLive i) (hj : 0 < j) (hbase : base ≤ i)
    (hi : u.retrievals[i]? = some v)
    (hnot : i ∉ (log.take (j - 1)).map Receipt.retrieval) :
    v.fate = some (.returned (.ok c)) := by
  rcases hu.ended hover hbase hi with hin | ⟨-, -, hfate⟩
  · obtain ⟨r, hr, rfl⟩ := List.mem_map.1 hin
    obtain ⟨k, hk⟩ := List.getElem?_of_mem hr
    obtain ⟨hlt, -⟩ := List.getElem?_eq_some_iff.1 hk
    have hlast : k + 1 = j := by
      have hle : log.length ≤ j := by
        rcases hu.stage with ⟨h, -⟩ | ⟨h, -⟩ <;> omega
      by_contra hne
      refine hnot (List.mem_map_of_mem (List.mem_of_getElem? (i := k) ?_))
      rw [List.getElem?_take_of_lt (by omega)]
      exact hk
    obtain ⟨-, g, result, hended, -, hbrought⟩ := hu.settled k r hk
    rw [hended] at hi
    cases hi
    rw [hbrought hlast]
  · exact hfate

/-- Whoever made an assumption that failed is told how. -/
theorem Course.refused (hu : Course start h c base j log u) {k : Nat}
    {r : Receipt} {e : AccessError} (hk : log[k]? = some r) (hlt : k + 1 < j)
    (he : r.Refuses start.request h e) :
    ∃ g, u.retrievals[r.retrieval]? =
      some ⟨g, .assuming, some (.returned (.error e))⟩ := by
  obtain ⟨-, g, result, hended, hrefused, -⟩ := hu.settled k r hk
  exact ⟨g, hrefused e hlt he ▸ hended⟩

/-- Where no assumption brought the set, everybody made one that failed and is
told how. -/
theorem Course.all_refused (hu : Course start h c base j log u)
    (hover : ∀ i, ¬u.IsLive i)
    (hfails : ∀ k r, log[k]? = some r → k + 1 < j →
      ∃ e, r.Refuses start.request h e)
    (hlt : log.length + 1 ≤ j) (hbase : base ≤ i)
    (hi : u.retrievals[i]? = some v) :
    ∃ r ∈ log, r.retrieval = i ∧ ∃ g e, r.Refuses start.request h e ∧
      u.retrievals[i]? = some ⟨g, .assuming, some (.returned (.error e))⟩ := by
  rcases hu.ended hover hbase hi with hin | ⟨hj, -⟩
  · obtain ⟨r, hr, rfl⟩ := List.mem_map.1 hin
    obtain ⟨k, hk⟩ := List.getElem?_of_mem hr
    have hbefore : k < log.length := (List.getElem?_eq_some_iff.1 hk).1
    obtain ⟨e, he⟩ := hfails k r hk (by omega)
    obtain ⟨g, hended⟩ := hu.refused hk (by omega) he
    exact ⟨r, hr, rfl, g, e, he, hended⟩
  · omega

/-- What a rush has added to the metrics when it is over. -/
theorem Course.metrics_eq {request : Request} {clocks : List Instant}
    (hs : (unused request clocks).Reaches s) (hidle : ∀ i, ¬s.IsLive i)
    (hrush : (s.startAll handles).Rush h log t) (hover : ∀ i, ¬t.IsLive i)
    (hu : Course (s.startAll handles) h c s.retrievals.length j log t) :
    t.metrics = ⟨s.metrics.hits + (handles.length - log.length),
      s.metrics.refreshes + log.length,
        s.metrics.failures + min log.length (j - 1)⟩ := by
  obtain ⟨news, heq, hnews⟩ := hrush.exists_eq_append hidle
  have hreturned : ∀ v ∈ news, v.returned = true := by
    intro v hv
    obtain ⟨k, hk⟩ := List.getElem?_of_mem hv
    refine hu.returned hover (Nat.le_add_right _ k) ?_
    rw [heq, List.getElem?_append_right (Nat.le_add_right _ k),
      Nat.add_sub_cancel_left, hk]
  have hreach := hs.trans ((reaches_startAll s handles).trans hrush.reaches)
  have hhits :=
    (Reaches.counted hs).hits_add (Reaches.counted hreach) hs.guarded hu.guarded
    (hs.guarded.free hidle) (hu.guarded.free hover) heq hreturned
  have hlog := hu.length_log hover (by rw [heq, List.length_append, hnews])
  have hrefreshes := hu.refreshes
  have hfailures := hu.failures
  rw [startAll_eq] at hrefreshes hfailures
  rw [hu.guarded.free hover] at hrefreshes
  have hzero : (none : Option Nat).isSome.toNat = 0 := rfl
  dsimp only at hrefreshes hfailures
  show (⟨t.metrics.hits, t.metrics.refreshes, t.metrics.failures⟩ : Metrics) = _
  rw [Metrics.mk.injEq]
  omega

/-- Retrievals that are started together, through handles that read one clock
and have one window, on a cache without a retrieval under way, whose set is
missing or stale for them.  They go on in any order, while that clock does not
move back.  Of their assumptions those before the `j`-th fail, and the `j`-th
brings a set that is fresh until the end.

There is one assumption after another, each by a retrieval of its own, and
nobody is stuck.  Once all have ended, whoever made an assumption that failed
was told how.  With `j` retrievals or more there were `j` assumptions, and all
others were handed the set; with fewer of them each made an assumption, and all
were refused.  The metrics have grown accordingly.  A planned batch whose
assumptions do not move the clock back is of this kind, and comes to its end. -/
theorem coalesces {request : Request} {clocks : List Instant}
    (hs : (unused request clocks).Reaches s) (hidle : ∀ i, ¬s.IsLive i)
    (halike : ∀ g ∈ handles, s.Alike g h) (hstale : s.lookup h = .stale) :
    let base := s.retrievals.length
    let n := handles.length
    (∀ log t, (s.startAll handles).Rush h log t →
      (∀ i k, t.Assumes i → t.Assumes k → i = k) ∧
        ((∃ i, t.IsLive i) → ∃ k, t.Assumes k ∨ t.Enabled (.enter k) ∨
          t.Enabled (.acquire k))) ∧
      (∀ log t j c, (s.startAll handles).Rush h log t →
        (∀ i, ¬t.IsLive i) → 0 < j →
        (∀ k r, log[k]? = some r → k + 1 < j → ∃ e, r.Refuses s.request h e) →
        (∀ r, log[j - 1]? = some r →
          r.answer = .value c ∧ c.freshAt? (t.now h) (t.window h) = some true) →
        (log.map Receipt.retrieval).Nodup ∧
          (∀ r ∈ log, base ≤ r.retrieval ∧ r.retrieval < base + n) ∧
          (∀ k r e, log[k]? = some r → k + 1 < j → r.Refuses s.request h e →
            ∃ g, t.retrievals[r.retrieval]? =
              some ⟨g, .assuming, some (.returned (.error e))⟩) ∧
          (j ≤ n →
            log.length = j ∧
              t.metrics = ⟨s.metrics.hits + (n - j), s.metrics.refreshes + j,
                s.metrics.failures + (j - 1)⟩ ∧
              ∀ i, base ≤ i → i < base + n →
              i ∉ (log.take (j - 1)).map Receipt.retrieval →
                ∃ g phase, t.retrievals[i]? =
                some ⟨g, phase, some (.returned (.ok c))⟩) ∧
          (n < j →
            log.length = n ∧
              t.metrics = ⟨s.metrics.hits, s.metrics.refreshes + n,
                s.metrics.failures + n⟩ ∧
              ∀ i, base ≤ i → i < base + n →
                ∃ r ∈ log, r.retrieval = i ∧ ∃ g e, r.Refuses s.request h e ∧
                  t.retrievals[i]? =
                  some ⟨g, .assuming, some (.returned (.error e))⟩)) ∧
      ∀ p : PlannedCache, p.cache = s → p.Forward →
        ∃ log, (s.startAll handles).Rush h log
        (Batch.start p handles none).run.scene.cache ∧
          ∀ i, ¬(Batch.start p handles none).run.scene.cache.IsLive i := by
  intro base n
  have hreaches {log : List Receipt} {t : Cache}
      (hrush : (s.startAll handles).Rush h log t) : s.Reaches t :=
    (reaches_startAll s handles).trans hrush.reaches
  have hguarded {log : List Receipt} {t : Cache}
      (hrush : (s.startAll handles).Rush h log t) : t.Guarded :=
    hs.guarded.reaches (hreaches hrush)
  refine ⟨fun log t hrush => ⟨fun i k => (hguarded hrush).unique,
    fun ⟨i, hi⟩ => (hguarded hrush).goesOn hi⟩, ?_, ?_⟩
  · intro log t j c hrush hover hj hfails hbrings
    have hrequest : (s.startAll handles).request = s.request := by
      rw [startAll_eq]
    have hu :=
      hrush.course hj (course_startAll hs.guarded hidle halike hstale hj c)
      (hrequest ▸ hfails) hbrings
    have hlength : t.retrievals.length = base + n := by
      rw [hrush.length_eq, startAll_eq, List.length_append, List.length_map]
    have hlog := hu.length_log hover hlength
    have hmetrics := hu.metrics_eq hs hidle hrush hover
    have hat {i : Nat} (hlt : i < base + n) : ∃ v, t.retrievals[i]? = some v :=
      ⟨_, List.getElem?_eq_getElem (hlength ▸ hlt)⟩
    refine ⟨hu.distinct, fun r hr =>
      hlength ▸ hu.bounds_of_mem (List.mem_map_of_mem hr),
      fun k r e hk hlt he => hu.refused hk hlt (hrequest ▸ he),
      fun hle => ⟨by omega, ?_, fun i hbase hlt hnot => ?_⟩,
      fun hlt => ⟨by omega, ?_, fun i hbase hi => ?_⟩⟩
    · rw [hmetrics]
      simp only [Metrics.mk.injEq]
      omega
    · obtain ⟨⟨g, phase, fate⟩, hv⟩ := hat hlt
      obtain rfl := hu.handed hover hj hbase hv hnot
      exact ⟨g, phase, hv⟩
    · rw [hmetrics]
      simp only [Metrics.mk.injEq]
      omega
    · obtain ⟨v, hv⟩ := hat hi
      exact hrequest ▸ hu.all_refused hover (hrequest ▸ hfails)
        (by omega) hbase hv
  · rintro p rfl hforward
    exact Batch.rush_run (.of_not_isLive hs.guarded hidle) hforward handles h

/-- Of three retrievals the second one is refused, and then the first one brings
a set. -/
def flurry : List Action :=
  [.enter 0, .enter 1, .enter 2, .acquire 1, .settle 1 (.failed ⟨"denied", []⟩),
    .setClock 0 ⟨1000000000, 0⟩, .acquire 0,
    .settle 0 (.value lasting), .acquire 2]

theorem coalesces_flurry :
    let t := ((unused plainRequest [.epoch]).startAll [{}, {}, {}]).after flurry
    t.metrics = ⟨1, 2, 1⟩ ∧
      (∃ g, t.retrievals[1]? = some ⟨g, .assuming, some (.returned (.error
        (.credential (.assumeRole plainRequest.roleArn.text
          ⟨"denied", []⟩))))⟩) ∧
      ∀ i < 3, i ≠ 1 → ∃ g phase,
        t.retrievals[i]? = some ⟨g, phase, some (.returned (.ok lasting))⟩ := by
  intro t
  have hs : (unused plainRequest [.epoch]).Reaches
      (unused plainRequest [.epoch]) := .refl
  have halike : ∀ g ∈ [({} : Handle), {}, {}],
      (unused plainRequest [.epoch]).Alike g {} := by
    simp [Alike]
  have hrush : ((unused plainRequest [.epoch]).startAll [{}, {}, {}]).Rush {}
      [⟨1, .failed ⟨"denied", []⟩, [.epoch]⟩,
        ⟨0, .value lasting, [⟨1000000000, 0⟩]⟩] t := by
    have hstart : Rush _ {} []
        ((unused plainRequest [.epoch]).startAll [{}, {}, {}]) := .refl
    have hwait := ((hstart.enter 0).enter 1).enter 2
    have hrefused :=
      (hwait.acquire 1).settle (i := 1) ⟨{}, rfl⟩ (.failed ⟨"denied", []⟩)
    have hmoved := @Rush.forward _ {} _ _ hrefused 0 ⟨1000000000, 0⟩ (by decide)
    exact ((hmoved.acquire 0).settle (i := 0) ⟨{}, rfl⟩
      (.value lasting)).acquire 2
  have hover : ∀ i, ¬t.IsLive i := by
    rintro (_ | _ | _ | i) ⟨g, phase, hr⟩ <;> cases hr
  obtain ⟨-, hends, -⟩ :=
    coalesces (h := {}) hs (by simp [IsLive, unused]) halike rfl
  obtain ⟨-, -, hrefused, hshared, -⟩ :=
    hends _ t 2 lasting hrush hover (by decide) (fun k r hk hlt => by
      obtain rfl : k = 0 := by omega
      cases hk
      exact ⟨_, .denied rfl⟩)
    (fun r hr => by
      cases hr
      exact ⟨rfl, by decide⟩)
  obtain ⟨-, hmetrics, hothers⟩ := hshared (by decide)
  refine ⟨hmetrics, hrefused 0 _ _ rfl (by decide) (.denied rfl),
    fun i hlt hne => ?_⟩
  exact hothers i (Nat.zero_le i) hlt (by simpa using hne)

end CloudAccess.Cache
