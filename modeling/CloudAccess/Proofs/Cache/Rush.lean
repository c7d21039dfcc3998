import CloudAccess.Proofs.Cache.Batches

/-!
# Retrievals that are started together

Retrievals that are started together go on in any order while the clocks move
on.

* `Rush` follows them, with the `Receipt`s of the assumptions that have ended.
* `Alike` says that two handles see the same.  What is stale stays so when their
  clock moves on (`lookup_stale_of_le`).
* `settle_of_refuses` and `settle_of_fresh` say what the end of an assumption
  comes to.
* `Rush.exists_eq_append` says which retrievals there are, and `Guarded.goesOn`
  that one of those under way can go on.
* `Batch.rush_run` says that a planned batch is a rush that comes to its end.
-/

namespace CloudAccess

/-! ## Receipts -/

/-- An assumption that has ended: whose it was, its answer, and what the clocks
showed when it ended. -/
structure Receipt where
  retrieval : Nat
  answer : Outcome CredentialSet
  clocks : List Instant

/-- The answer on a receipt is a failure: the assumption was refused, or it
brought a set that was expired by the clock of the handle. -/
inductive Receipt.Refuses (request : Request) (h : Handle) (r : Receipt) :
    AccessError → Prop
  | denied {e : RemoteError} (ha : r.answer = .failed e) :
      Refuses request h r (.credential (.assumeRole request.roleArn.text e))
  | expired {c : CredentialSet} {expiry : Instant} (ha : r.answer = .value c)
      (he : c.expiresAt = some expiry)
      (hle : expiry ≤ r.clocks.getD h.clock .epoch) :
      Refuses request h r (.credential (.expiredOnReceipt expiry))

/-- A failure is told in one way. -/
theorem Receipt.Refuses.unique {request : Request} {h : Handle} {r : Receipt}
    {e e' : AccessError} (he : r.Refuses request h e)
    (he' : r.Refuses request h e') : e = e' := by
  cases he with
  | denied ha =>
    cases he' with
    | denied ha' =>
      rw [ha] at ha'
      cases ha'
      rfl
    | expired ha' => exact absurd (ha.symm.trans ha') (by simp)
  | expired ha hexpires =>
    cases he' with
    | denied ha' => exact absurd (ha.symm.trans ha') (by simp)
    | expired ha' hexpires' =>
      rw [ha] at ha'
      cases ha'
      rw [hexpires] at hexpires'
      cases hexpires'
      rfl

namespace Cache

variable {s t : Cache} {h g : Handle} {c : CredentialSet} {i : Nat}
  {log : List Receipt}

/-! ## Rushes -/

/-- Retrievals are started through some handles. -/
def startAll (s : Cache) (handles : List Handle) : Cache :=
  handles.foldl (fun s h => s.act (.start h)) s

/-- Retrievals that were started go on in any order, with the receipts of the
assumptions that have ended, while the clock of a handle does not move back. -/
inductive Rush (s : Cache) (h : Handle) : List Receipt → Cache → Prop
  | refl : Rush s h [] s
  | enter {log : List Receipt} {t : Cache} (hrush : Rush s h log t) (i : Nat) :
      Rush s h log (t.act (.enter i))
  | acquire {log : List Receipt} {t : Cache} (hrush : Rush s h log t)
      (i : Nat) :
      Rush s h log (t.act (.acquire i))
  | settle {log : List Receipt} {t : Cache} (hrush : Rush s h log t) {i : Nat}
      (hi : t.Assumes i) (answer : Outcome CredentialSet) :
      Rush s h (log ++ [⟨i, answer, t.clocks⟩]) (t.act (.settle i answer))
  | forward {log : List Receipt} {t : Cache} (hrush : Rush s h log t)
      {clock : Nat} {now : Instant}
      (hle : t.now h ≤ (t.act (.setClock clock now)).now h) :
      Rush s h log (t.act (.setClock clock now))

theorem Rush.reaches (hrush : s.Rush h log t) : s.Reaches t := by
  induction hrush with
  | refl => exact .refl
  | enter _ i ih => exact .step ih ⟨.enter i, rfl⟩
  | acquire _ i ih => exact .step ih ⟨.acquire i, rfl⟩
  | settle _ _ answer ih => exact .step ih ⟨.settle _ answer, rfl⟩
  | forward _ _ ih => exact .step ih ⟨.setClock _ _, rfl⟩

/-! ## Handles that see the same -/

/-- Two handles read the same clock and have the same window. -/
def Alike (s : Cache) (g h : Handle) : Prop :=
  g.clock = h.clock ∧ s.window g = s.window h

theorem Alike.now_eq (ha : s.Alike g h) : s.now g = s.now h := by
  unfold now
  rw [ha.1]

theorem Alike.lookup_eq (ha : s.Alike g h) : s.lookup g = s.lookup h := by
  unfold lookup
  rw [ha.now_eq, ha.2]

theorem Alike.of_request_eq (ha : s.Alike g h)
    (hrequest : t.request = s.request) : t.Alike g h := by
  unfold Alike window at ha ⊢
  rw [hrequest]
  exact ha

/-- A clock that is set to a later instant does not show an earlier one. -/
theorem now_le_setClock {clock : Nat} {now : Instant} (h : Handle)
    (hle : s.clocks.getD clock .epoch ≤ now) :
    s.now h ≤ (s.act (.setClock clock now)).now h := by
  show s.clocks.getD h.clock .epoch ≤
    (s.clocks.set clock now).getD h.clock .epoch
  simp only [List.getD_eq_getElem?_getD, List.getElem?_set] at hle ⊢
  by_cases heq : clock = h.clock
  · subst heq
    rw [if_pos rfl]
    split
    · exact hle
    · rw [List.getElem?_eq_none (Nat.not_lt.1 ‹_›)]
      exact Int.le_refl _
  · rw [if_neg heq]
    exact Int.le_refl _

/-- What was stale stays so when the clocks move on. -/
theorem lookup_stale_of_le (hslot : t.slot = s.slot)
    (hrequest : t.request = s.request) (hle : s.now h ≤ t.now h)
    (hl : s.lookup h = .stale) : t.lookup h = .stale := by
  have hwindow : t.window h = s.window h := by
    unfold window
    rw [hrequest]
  rw [lookup_eq_stale_iff] at hl ⊢
  rw [hslot, hwindow]
  exact hl.imp_right fun ⟨c, hc, hstale⟩ =>
    ⟨c, hc, CredentialSet.freshAt?_later hle hstale⟩

/-! ## The end of an assumption -/

theorem act_settle (hi : s.retrievals[i]? = some ⟨g, .assuming, none⟩)
    (answer : Outcome CredentialSet) :
    s.act (.settle i answer) = s.settle i g answer := by
  unfold act
  simp only [hi]

/-- A failure is told to the retrieval that made the assumption. -/
theorem settle_of_refuses (ha : s.Alike g h) {answer : Outcome CredentialSet}
    {e : AccessError}
    (he : Receipt.Refuses s.request h ⟨i, answer, s.clocks⟩ e) :
    s.settle i g answer = ({ s with guard := none } : Cache).failed.conclude i
      (.error e) := by
  cases he with
  | denied hanswer =>
    cases hanswer
    rfl
  | @expired c expiry hanswer hexpires hle =>
    cases hanswer
    have hnow : expiry ≤ s.now g := ha.now_eq ▸ hle
    have hfilter : c.expiresAt.filter
          (· ≤ ({ s with guard := none } : Cache).now g) =
        some expiry :=
          Option.filter_eq_some_iff.2 ⟨hexpires, decide_eq_true hnow⟩
    unfold settle
    dsimp only
    rw [hfilter]

/-- A set that is fresh is kept and handed to the retrieval that made the
assumption. -/
theorem settle_of_fresh (ha : s.Alike g h)
    (hfresh : c.freshAt? (s.now h) (s.window h) = some true) :
    s.settle i g (.value c) =
      ({ s with guard := none, slot := some c } : Cache).conclude i
        (.ok c) := by
  have hfilter : c.expiresAt.filter
      (· ≤ ({ s with guard := none } : Cache).now g) = none := by
    rw [Option.filter_eq_none_iff]
    intro expiry hexpiry hle
    have hlt : s.now g < expiry :=
      ha.now_eq ▸ CredentialSet.lt_of_freshAt? (zero_le_window s h) hfresh
        expiry hexpiry
    exact Int.not_le.2 hlt (of_decide_eq_true hle)
  unfold settle
  dsimp only
  rw [hfilter]

/-! ## The retrievals of a rush -/

variable {handles : List Handle} {phase : Retrieval.Phase}

/-- Starting retrievals adds them to those from before. -/
theorem startAll_eq (s : Cache) (handles : List Handle) :
    s.startAll handles =
      { s with
        retrievals :=
          s.retrievals ++ handles.map fun h => { handle := h } } := by
  unfold startAll
  induction handles generalizing s with
  | nil => simp
  | cons h handles ih =>
    rw [List.foldl_cons, ih]
    simp [act]

theorem reaches_startAll (s : Cache) (handles : List Handle) :
    s.Reaches (s.startAll handles) := by
  unfold startAll
  induction handles generalizing s with
  | nil => exact .refl
  | cons h handles ih => exact (reaches_act s (.start h)).trans (ih _)

/-- The retrievals from before have ended, so that those under way are new. -/
theorem new_of_live (hidle : ∀ i, ¬s.IsLive i)
    (hi : (s.startAll handles).retrievals[i]? = some ⟨g, phase, none⟩) :
    s.retrievals.length ≤ i ∧ g ∈ handles ∧ phase = .started := by
  rw [startAll_eq] at hi
  rcases Nat.lt_or_ge i s.retrievals.length with hlt | hge
  · rw [List.getElem?_append_left hlt] at hi
    exact absurd ⟨g, phase, hi⟩ (hidle i)
  · rw [List.getElem?_append_right hge, List.getElem?_map] at hi
    obtain ⟨h, hk, heq⟩ := Option.map_eq_some_iff.1 hi
    cases heq
    exact ⟨hge, List.mem_of_getElem? hk, rfl⟩

/-- No retrieval is added to those that were started. -/
theorem Rush.length_eq (hrush : s.Rush h log t) :
    t.retrievals.length = s.retrievals.length := by
  induction hrush with
  | refl => rfl
  | enter _ i ih => exact ((effect_act _ (.enter i)).length_eq nofun).trans ih
  | acquire _ i ih =>
    exact ((effect_act _ (.acquire i)).length_eq nofun).trans ih
  | settle _ _ answer ih =>
    exact ((effect_act _ (.settle _ answer)).length_eq nofun).trans ih
  | forward _ _ ih => exact ih

/-- Behind the retrievals from before there are those that were started. -/
theorem Rush.exists_eq_append (hrush : (s.startAll handles).Rush h log t)
    (hidle : ∀ i, ¬s.IsLive i) :
    ∃ news, t.retrievals = s.retrievals ++ news ∧
      news.length = handles.length := by
  have hold : t.retrievals.take s.retrievals.length = s.retrievals := by
    refine List.ext_getElem? fun i => ?_
    rw [List.getElem?_take]
    split
    · rename_i hlt
      have hr := List.getElem?_eq_getElem hlt
      have hstarted : (s.startAll handles).retrievals[i]? =
          some s.retrievals[i] := by
        rw [startAll_eq, List.getElem?_append_left hlt]
        exact hr
      obtain ⟨run, rfl⟩ := reaches_iff_after.1 hrush.reaches
      rw [ended_after run hstarted (isSome_fate (hidle i) hr), hr]
    · rw [List.getElem?_eq_none (Nat.not_lt.1 ‹_›)]
  have hlength : t.retrievals.length =
      s.retrievals.length + handles.length := by
    rw [hrush.length_eq, startAll_eq, List.length_append, List.length_map]
  refine ⟨t.retrievals.drop s.retrievals.length, ?_,
    by rw [List.length_drop]; omega⟩
  have happend := List.take_append_drop s.retrievals.length t.retrievals
  rw [hold] at happend
  exact happend.symm

/-- Whoever has not ended can go on: one is inside its assumption, or one can
look. -/
theorem Guarded.goesOn (hg : s.Guarded) (hi : s.IsLive i) :
    ∃ k, s.Assumes k ∨ s.Enabled (.enter k) ∨ s.Enabled (.acquire k) := by
  cases hguard : s.guard with
  | some k => exact ⟨k, .inl ((hg k).1 hguard)⟩
  | none =>
    obtain ⟨g, phase, hr⟩ := hi
    cases phase with
    | started => exact ⟨i, .inr (.inl ⟨g, hr⟩)⟩
    | waiting => exact ⟨i, .inr (.inr ⟨hguard, g, hr⟩)⟩
    | assuming => exact ⟨i, .inl ⟨g, hr⟩⟩

end Cache

/-! ## Planned batches -/

namespace PlannedCache

variable {p : PlannedCache} {start : Cache} {log : List Receipt} {h : Handle}
  {unit i : Nat}

/-- No assumption moves the clock back, neither one that is planned nor one
under way. -/
structure Forward (p : PlannedCache) : Prop where
  planned : ∀ a ∈ p.plan, ∀ span ∈ a.advance, .zero ≤ span
  flying : ∀ f ∈ p.flights, ∀ span ∈ f.advance, .zero ≤ span

theorem Forward.send (hp : p.Forward) (unit i : Nat) :
    (p.send unit i).Forward := by
  unfold PlannedCache.send
  dsimp only
  split
  · refine ⟨hp.planned, fun f hf => ?_⟩
    rcases List.mem_cons.1 hf with rfl | hf
    · nofun
    · exact hp.flying f hf
  · rename_i next plan hplan
    have hplanned : ∀ a ∈ next :: plan, ∀ span ∈ a.advance, .zero ≤ span := by
      rw [← hplan]
      exact hp.planned
    refine ⟨fun a ha => hplanned a (List.mem_cons_of_mem next ha),
      fun f hf => ?_⟩
    rcases List.mem_cons.1 hf with rfl | hf
    · exact hplanned next List.mem_cons_self
    · exact hp.flying f hf

theorem Forward.land (hp : p.Forward) (f : Flight) : (p.land f).Forward := by
  have hflights : ∀ f' ∈ p.flights.filter (·.retrieval ≠ f.retrieval),
      ∀ span ∈ f'.advance, .zero ≤ span :=
      fun f' hf => hp.flying f' (List.mem_filter.1 hf).1
  unfold PlannedCache.land
  dsimp only
  split
  · exact ⟨hp.planned, hflights⟩
  · split <;> exact ⟨hp.planned, hflights⟩

/-- An assumption that lands is settled, after the clock has moved on. -/
theorem rush_land (hrush : start.Rush h log p.cache) {f : Flight}
    (hi : p.cache.Assumes f.retrieval)
    (hforward : ∀ span ∈ f.advance, .zero ≤ span) :
    ∃ log', start.Rush h log' (p.land f).cache := by
  unfold PlannedCache.land
  dsimp only
  split
  · exact ⟨_, hrush.settle hi _⟩
  · rename_i span hspan
    split
    · exact ⟨_, hrush.settle hi _⟩
    · rename_i now hnow
      refine ⟨_, (hrush.forward (Cache.now_le_setClock h ?_)).settle hi _⟩
      obtain ⟨hnanos, -⟩ := Instant.add?_eq_some hnow
      have hspan' := hforward span hspan
      rw [Span.le_iff] at hspan'
      rw [Instant.le_iff]
      have hzero : Span.zero.nanos = 0 := rfl
      have hreading : ({ p with
          flights := p.flights.filter (·.retrieval ≠ f.retrieval) } :
        PlannedCache).firstReading = p.cache.clocks.getD 0 .epoch := rfl
      rw [hreading] at hnanos
      omega

/-- A retrieval of a planned cache goes on as one of a rush does. -/
theorem rush_step (hrush : start.Rush h log p.cache) (hp : p.Forward)
    (unit i : Nat) :
    (∃ log', start.Rush h log' (p.step unit i).cache) ∧
    (p.step unit i).Forward := by
  unfold PlannedCache.step
  split
  · exact ⟨⟨log, hrush.enter i⟩, hp.planned, hp.flying⟩
  · have hacquired : (p.act (.acquire i)).Forward := ⟨hp.planned, hp.flying⟩
    dsimp only
    split
    · rw [cache_send]
      exact ⟨⟨log, hrush.acquire i⟩, hacquired.send unit i⟩
    · exact ⟨⟨log, hrush.acquire i⟩, hacquired⟩
  · rename_i g hr
    split
    · rename_i f hf
      have hretrieval : f.retrieval = i := by simpa using List.find?_some hf
      exact ⟨rush_land hrush ⟨g, hretrieval ▸ hr⟩
        (hp.flying f (List.mem_of_find?_eq_some hf)), hp.land f⟩
    · exact ⟨⟨log, hrush⟩, hp⟩
  · exact ⟨⟨log, hrush⟩, hp⟩

end PlannedCache

namespace Batch

variable {b c : Batch} {s : Cache} {h : Handle}

/-- A batch without a deadline is a rush as far as it has got. -/
structure Rushes (s : Cache) (h : Handle) (b : Batch) : Prop where
  deadline : b.deadline = none
  rush : ∃ log, s.Rush h log b.scene.cache
  forward : b.scene.Forward

theorem Rushes.step (hb : Rushes s h b) (hstep : play.Step b c) :
    Rushes s h c := by
  rcases step_cases hstep with
    ⟨i, -, -, rfl⟩ | ⟨⟨unit, hd, -⟩, -⟩ | ⟨unit, -, -, -, rfl⟩
  · obtain ⟨log, hrush⟩ := hb.rush
    obtain ⟨hgoes, hforward⟩ :=
      PlannedCache.rush_step hrush hb.forward b.moment.unit i
    exact ⟨hb.deadline, hgoes, hforward⟩
  · rw [hb.deadline] at hd
    cases hd
  · exact ⟨hb.deadline, hb.rush, hb.forward⟩

/-- A batch whose assumptions do not move the clock back is a rush, and it comes
to its end. -/
theorem rush_run {p : PlannedCache} (hp : p.Idle) (hforward : p.Forward)
    (handles : List Handle) (h : Handle) :
    ∃ log, (p.cache.startAll handles).Rush h log
      (start p handles none).run.scene.cache ∧
      ∀ i, ¬(start p handles none).run.scene.cache.IsLive i := by
  have hstart : Rushes (p.cache.startAll handles) h (start p handles none) := by
    refine ⟨rfl, ⟨[], ?_⟩, ?_⟩
    · rw [scene_start, Cache.startAll_eq]
      exact .refl
    · rw [scene_start]
      exact ⟨hforward.planned, hforward.flying⟩
  have hrun : Rushes (p.cache.startAll handles) h (start p handles none).run :=
    (Play.reaches_run _ _ _ _).invariant (I := Rushes _ h) hstart
      fun _ _ hu hstep => hu.step hstep
  obtain ⟨log, hrush⟩ := hrun.rush
  refine ⟨log, hrush, fun i ⟨g, phase, hr⟩ => ?_⟩
  cases (idle_run hp handles none).ended _ (List.mem_of_getElem? hr)

end Batch

end CloudAccess
