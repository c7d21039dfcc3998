import CloudAccess.Proofs.Cache.Masked
import CloudAccess.Proofs.Rehearsal

/-!
# Secrets influence nothing but themselves

A cache is used twice in the same way, and its assumptions bring sets that
differ in their secrets only.

* `Batch.shows_masked` says that what goes on in a batch does not depend on the
  secrets, so that batches on caches that look the same go on the same way.
* `CacheSession.masked_apply` says so of one operation of a session, and
  `masked_perform` of a script of operations.
* `CacheSession.secrets_stay_apart` compares the two uses: whatever anyone
  gets to see is the same in both, apart from the secrets in the sets that are
  handed out.
-/

namespace CloudAccess

/-! ## Batches -/

namespace Batch

/-- A batch without the secrets of its cache. -/
def masked (b : Batch) : Batch := { b with scene := b.scene.masked }

theorem isSome_fate?_masked (p : PlannedCache) (i : Nat) :
    (p.masked.fate? i).isSome = (p.fate? i).isSome := by
  rw [PlannedCache.fate?_masked, Option.isSome_map]

theorem masked_goOn (b : Batch) (i : Nat) :
    (b.goOn i).masked = b.masked.goOn i := by
  have hstep : b.masked.scene.step b.masked.moment.unit i =
      (b.scene.step b.moment.unit i).masked :=
      (PlannedCache.masked_step _ _ _).symm
  simp only [goOn, hstep, isSome_fate?_masked]
  rfl

theorem masked_giveUp (b : Batch) : b.giveUp.masked = b.masked.giveUp := by
  have hdrop : (b.members.foldl PlannedCache.drop b.scene).masked =
      b.members.foldl PlannedCache.drop b.scene.masked := by
    refine (List.foldl_hom PlannedCache.masked fun p i => ?_).symm
    exact (PlannedCache.masked_drop p i).symm
  have hleft : (fun i => (b.scene.masked.fate? i).isNone) =
      fun i => (b.scene.fate? i).isNone := by
    funext i
    rw [PlannedCache.fate?_masked, Option.isNone_map]
  unfold giveUp
  simp only [masked, hdrop, hleft]

/-- What goes on in a batch does not depend on the secrets. -/
theorem shows_masked : play.Shows masked where
  tasks _ := rfl
  ready b task := by
    cases task with
    | retrieval i => exact b.scene.ready_masked b.moment.unit i
    | deadline => rfl
  step b task := by
    cases task with
    | retrieval i => exact (masked_goOn b i).symm
    | deadline => exact (masked_giveUp b).symm
  due b := by
    have hdue : b.scene.masked.due = b.scene.due := funext b.scene.due_masked
    show earlier b.deadline (earliest (b.members.map b.scene.masked.due)) = _
    rw [hdue]
    rfl
  advance _ _ := rfl
  isOver b := by
    show (b.members.all fun i => (b.scene.masked.fate? i).isSome) = b.isOver
    simp only [isSome_fate?_masked]
    rfl

theorem masked_start (p : PlannedCache) (handles : List Handle)
    (deadline : Option Nat) :
    (start p handles deadline).masked = start p.masked handles deadline := by
  have hscene : (handles.foldl (fun p h => p.act (.start h)) p).masked =
      handles.foldl (fun p h => p.act (.start h)) p.masked := by
    refine (List.foldl_hom PlannedCache.masked fun p h => ?_).symm
    exact (PlannedCache.masked_act p (.start h)).symm
  have hnext : p.masked.nextRetrieval = p.nextRetrieval := by
    simp [PlannedCache.nextRetrieval, PlannedCache.masked, Cache.masked]
  simp only [start, masked, hscene, hnext]

theorem masked_run (b : Batch) : b.run.masked = b.masked.run :=
  (shows_masked.run b.steps [] b).symm

theorem fates_masked (b : Batch) :
    b.masked.fates = b.fates.map (Option.map Retrieval.Fate.masked) := by
  simp only [fates, List.map_map]
  exact List.map_congr_left fun i _ => b.scene.fate?_masked i

/-- Two batches look the same: they have come to the same moment, the same
retrievals have ended in the same order and with the same results, and all that
was counted and reported is the same, apart from the secrets. -/
structure LooksLike (b c : Batch) : Prop where
  masked : c.masked = b.masked
  moment : c.moment = b.moment
  ended : c.ended = b.ended
  fates : c.fates.map (Option.map Retrieval.Fate.masked) =
    b.fates.map (Option.map Retrieval.Fate.masked)

theorem looksLike_of_masked {b c : Batch} (h : c.masked = b.masked) :
    b.LooksLike c where
  masked := h
  moment := (congrArg Batch.moment h :)
  ended := (congrArg Batch.ended h :)
  fates := by rw [← fates_masked, ← fates_masked, h]

/-- Batches on caches that look the same do so all the way: each order of steps
in one has its like in the other, and so has a run. -/
theorem looksLike_start {p q : PlannedCache} (h : q.masked = p.masked)
    (handles : List Handle) (deadline : Option Nat) :
    (∀ b, play.Reaches (start p handles deadline) b →
        ∃ c, play.Reaches (start q handles deadline) c ∧ b.LooksLike c) ∧
      ∀ steps, ((play.run steps [] (start p handles deadline)).state).LooksLike
        (play.run steps [] (start q handles deadline)).state := by
  have hstart : (start q handles deadline).masked =
      (start p handles deadline).masked := by
    rw [masked_start, masked_start, h]
  refine ⟨fun b hb => ?_, fun steps => looksLike_of_masked ?_⟩
  · obtain ⟨c, hc, hmasked⟩ := shows_masked.reaches hstart hb
    exact ⟨c, hc, looksLike_of_masked hmasked⟩
  · rw [← shows_masked.run, ← shows_masked.run, hstart]

end Batch

/-! ## Sessions -/

/-- A reply without the secrets of the sets that it brings. -/
def CacheReply.masked : CacheReply → CacheReply
  | .retrieval fate => .retrieval (fate.map Retrieval.Fate.masked)
  | .retrievals fates =>
    .retrievals (fates.map (Option.map Retrieval.Fate.masked))
  | .slot c => .slot (c.map CredentialSet.masked)
  | reply => reply

/-- A cache is shown without its secrets. -/
theorem Cache.debugText_masked (s : Cache) (h : Handle) :
    s.masked.debugText h = s.debugText h := by
  have hrequest : s.masked.request = s.request := rfl
  have hwindow : s.masked.window h = s.window h := rfl
  have hslot : s.masked.slot.isSome = s.slot.isSome := Option.isSome_map
  unfold debugText
  rw [hslot, hwindow, hrequest]

/-- Caches that look the same show the same texts and sets. -/
theorem Cache.debugText_of_masked {s t : Cache} (h : t.masked = s.masked)
    (handle : Handle) :
    t.debugText handle = s.debugText handle :=
  calc t.debugText handle
    _ = t.masked.debugText handle := (t.debugText_masked handle).symm
    _ = s.masked.debugText handle := by rw [h]
    _ = s.debugText handle := s.debugText_masked handle

theorem Cache.slot_of_masked {s t : Cache} (h : t.masked = s.masked) :
    t.slot.map CredentialSet.debugText =
      s.slot.map CredentialSet.debugText := by
  have hslot (s : Cache) : s.slot.map CredentialSet.debugText =
      s.masked.slot.map CredentialSet.debugText := by
    cases hs : s.slot with
    | none => simp [masked, hs]
    | some c => simp [masked, hs, CredentialSet.debugText_masked]
  rw [hslot t, hslot s, h]

namespace CacheSession

/-- A session without the secrets of its cache. -/
def masked (s : CacheSession) : CacheSession :=
  { s with scene := s.scene.masked }

/-- A script of operations, each through a numbered handle. -/
def perform (s : CacheSession) :
    List (Nat × CacheOp) → Except Absent (CacheSession × List CacheReply)
  | [] => .ok (s, [])
  | (handle, op) :: script =>
    match s.apply handle op with
    | .error e => .error e
    | .ok (t, reply) =>
      match t.perform script with
      | .error e => .error e
      | .ok (u, replies) => .ok (u, reply :: replies)

theorem masked_retrieveAll (s : CacheSession) (handles : List Handle)
    (deadline : Option Nat) :
    s.masked.retrieveAll handles deadline =
      ((s.retrieveAll handles deadline).1.masked,
        (s.retrieveAll handles deadline).2.map
          (Option.map Retrieval.Fate.masked)) := by
  have hrun : (Batch.start s.masked.scene handles deadline).run =
      (Batch.start s.scene handles deadline).run.masked := by
    rw [Batch.masked_run, Batch.masked_start]
    rfl
  simp only [retrieveAll, hrun, Batch.fates_masked]
  rfl

theorem masked_retrieveOne (s : CacheSession) (h : Handle)
    (deadline : Option Nat) :
    s.masked.retrieveOne h deadline =
      ((s.retrieveOne h deadline).1.masked,
        (s.retrieveOne h deadline).2.masked) := by
  simp only [retrieveOne, masked_retrieveAll]
  cases (s.retrieveAll [h] deadline).2 with
  | nil => rfl
  | cons fate fates => cases fate <;> rfl

/-- What an operation does, and whether it is refused, does not depend on the
secrets. -/
theorem masked_applyTo (s : CacheSession) (h : Handle) (op : CacheOp) :
    s.masked.applyTo h op = (s.applyTo h op).map fun x =>
      (x.1.masked, x.2.masked) := by
  have hclocks : s.masked.cache.clocks = s.cache.clocks := rfl
  cases op with
  | retrieve | retrieveWithin =>
    exact congrArg Except.ok (masked_retrieveOne s h _)
  | retrieveMany numbers =>
    have hhandles : s.masked.handles = s.handles := rfl
    simp only [applyTo, hhandles]
    cases numbers.mapM (s.handles[·]?) with
    | none => rfl
    | some handles =>
      simp only [masked_retrieveAll]
      rfl
  | advance clock span =>
    simp only [applyTo, hclocks]
    cases s.cache.clocks[clock]? with
    | none => rfl
    | some now =>
      dsimp only
      cases now.add? span with
      | none => rfl
      | some now => rfl
  | set clock now =>
    simp only [applyTo, hclocks]
    split <;> rfl
  | debug =>
    have htext : s.masked.cache.debugText h = s.cache.debugText h :=
      Cache.debugText_masked s.cache h
    simp only [applyTo, htext]
    rfl
  | invalidate | peek | request | copy | withWindow | withClock => rfl

theorem masked_apply (s : CacheSession) (handle : Nat) (op : CacheOp) :
    s.masked.apply handle op = (s.apply handle op).map fun x =>
      (x.1.masked, x.2.masked) := by
  have hhandles : s.masked.handles = s.handles := rfl
  unfold apply
  rw [hhandles]
  cases s.handles[handle]? with
  | none => rfl
  | some h => exact masked_applyTo s h op

/-- Nor does what a script does. -/
theorem masked_perform (s : CacheSession) (script : List (Nat × CacheOp)) :
    s.masked.perform script =
      (s.perform script).map fun x =>
        (x.1.masked, x.2.map CacheReply.masked) := by
  induction script generalizing s with
  | nil => rfl
  | cons entry script ih =>
    obtain ⟨handle, op⟩ := entry
    simp only [perform, masked_apply]
    cases s.apply handle op with
    | error e => rfl
    | ok x =>
      obtain ⟨t, reply⟩ := x
      simp only [Except.map, ih]
      cases t.perform script <;> rfl

/-- Two sessions look the same: they have the same handles, counted, reported
and sent the same, and show the same texts and clocks.  Their sets differ in
their secrets at most. -/
structure LooksLike (s t : CacheSession) : Prop where
  masked : t.masked = s.masked
  handles : t.handles = s.handles
  clocks : t.cache.clocks = s.cache.clocks
  metrics : t.cache.metrics = s.cache.metrics
  ledger : t.cache.ledger = s.cache.ledger
  sent : t.scene.sent = s.scene.sent
  debugText : ∀ h, t.cache.debugText h = s.cache.debugText h
  slot : t.cache.slot.map CredentialSet.debugText =
    s.cache.slot.map CredentialSet.debugText

variable {s t : CacheSession}

theorem looksLike_of_masked (h : t.masked = s.masked) : s.LooksLike t := by
  have hcache : t.cache.masked = s.cache.masked := congrArg CacheSession.cache h
  exact {
    masked := h
    handles := (congrArg CacheSession.handles h :)
    clocks := (congrArg Cache.clocks hcache :)
    metrics := (congrArg Cache.metrics hcache :)
    ledger := (congrArg Cache.ledger hcache :)
    sent := (congrArg (fun s : CacheSession => s.scene.sent) h :)
    debugText := Cache.debugText_of_masked hcache
    slot := Cache.slot_of_masked hcache }

/-- Sessions that look the same do what a script says the same way. -/
theorem perform_of_masked (h : t.masked = s.masked)
    (script : List (Nat × CacheOp)) :
    (∀ absent, s.perform script = .error absent ↔
        t.perform script = .error absent) ∧
      ∀ u replies, s.perform script = .ok (u, replies) →
        ∃ v replies', t.perform script = .ok (v, replies') ∧
          v.masked = u.masked ∧
          replies'.map CacheReply.masked = replies.map CacheReply.masked := by
  have hsame : (t.perform script).map
        (fun x => (x.1.masked, x.2.map CacheReply.masked)) =
      (s.perform script).map fun x =>
      (x.1.masked, x.2.map CacheReply.masked) := by
    rw [← masked_perform, ← masked_perform, h]
  cases hs : s.perform script with
  | error absent =>
    cases ht : t.perform script with
    | error absent' =>
      rw [hs, ht] at hsame
      obtain rfl : absent' = absent := Except.error.inj hsame
      exact ⟨fun _ => Iff.rfl, by simp⟩
    | ok y =>
      rw [hs, ht] at hsame
      cases hsame
  | ok x =>
    cases ht : t.perform script with
    | error absent =>
      rw [hs, ht] at hsame
      cases hsame
    | ok y =>
      rw [hs, ht] at hsame
      have hpair := Except.ok.inj hsame
      refine ⟨by simp, fun u replies hu => ?_⟩
      obtain rfl := Except.ok.inj hu
      exact ⟨y.1, y.2, rfl, congrArg Prod.fst hpair, congrArg Prod.snd hpair⟩

/-- A cache is used twice in the same way, with plans of assumptions that agree
in everything but what the secret keys are, where they are not empty, and what
the tokens are.  The same scripts are refused for the same reason.  A script
that is carried out brings the same replies, apart from the secrets of the sets
in them; afterwards both sessions look the same, and whatever retrievals are
started together then, each order of their steps in the one has its like in the
other, at the same moments.  Whatever is done to a cache, in whatever order,
with answers that agree in everything but the secrets, leads to caches that
agree in everything but the secrets.  And a set is shown by its access key,
whether there is a token, and its expiry. -/
theorem secrets_stay_apart (request : Request) (now : Instant)
    (window : Option Span) (plan plan' : List PlannedAssumption)
    (hplans : List.Forall₂ PlannedAssumption.Alike plan plan') :
    (∀ script,
      (∀ absent, (start request now window plan).perform script =
          .error absent ↔
        (start request now window plan').perform script = .error absent) ∧
      ∀ s replies, (start request now window plan).perform script =
          .ok (s, replies) →
        ∃ t replies', (start request now window plan').perform script =
            .ok (t, replies') ∧
          replies'.map CacheReply.masked = replies.map CacheReply.masked ∧
          s.LooksLike t ∧
          ∀ handles deadline,
            (∀ b, Batch.play.Reaches (Batch.start s.scene handles deadline) b →
              ∃ c, Batch.play.Reaches (Batch.start t.scene handles deadline) c ∧
                b.LooksLike c) ∧
            ∀ steps, (Batch.play.run steps []
              (Batch.start s.scene handles deadline)).state.LooksLike
              (Batch.play.run steps []
                (Batch.start t.scene handles deadline)).state) ∧
    (∀ clocks actions actions',
      actions'.map Cache.Action.masked = actions.map Cache.Action.masked →
        ((Cache.unused request clocks).after actions').masked =
          ((Cache.unused request clocks).after actions).masked) ∧
    ∀ c d : CredentialSet, c.accessKeyId = d.accessKeyId →
      c.sessionToken.isSome = d.sessionToken.isSome →
        c.expiresAt = d.expiresAt →
        c.debugText = d.debugText := by
  have hplan : plan'.map PlannedAssumption.masked =
      plan.map PlannedAssumption.masked := by
    induction hplans with
    | nil => rfl
    | cons halike _ ih => rw [List.map_cons, List.map_cons, halike.masked, ih]
  have hstart : (start request now window plan').masked =
      (start request now window plan).masked := by
    simp only [start, masked, PlannedCache.masked, hplan]
  refine ⟨fun script => ?_, fun clocks actions actions' hactions => ?_,
    fun c d hkey htoken hexpiry => ?_⟩
  · obtain ⟨hrefused, hdone⟩ := perform_of_masked hstart script
    refine ⟨hrefused, fun s replies hs => ?_⟩
    obtain ⟨t, replies', ht, hmasked, hreplies⟩ := hdone s replies hs
    have hscene : t.scene.masked = s.scene.masked :=
      congrArg CacheSession.scene hmasked
    exact ⟨t, replies', ht, hreplies, looksLike_of_masked hmasked,
      Batch.looksLike_start hscene⟩
  · rw [Cache.masked_after, Cache.masked_after, hactions]
  · rw [← c.debugText_masked, CredentialSet.masked_eq_iff.2
      ⟨hkey, htoken, hexpiry⟩, d.debugText_masked]

/-- Two plans whose assumption brings the same but for the secrets. -/
def plannedWith (secret token : String) : List PlannedAssumption :=
  [{ delay := 1, accessKeyId := some "key", secretAccessKey := some secret,
     sessionToken := some token, expiry := .after (.ofSeconds 60) }]

theorem secrets_stay_apart_two_keys :
    ∃ t replies',
      (start Cache.plainRequest .epoch none (plannedWith "b" "y")).perform
          [(0, .retrieveMany [0, 0]), (0, .peek), (0, .debug)] =
            .ok (t, replies') ∧
        t.cache.metrics = { hits := 1, refreshes := 1, failures := 0 } := by
  have halike : PlannedAssumption.Alike
      { delay := 1, accessKeyId := some "key", secretAccessKey := some "a",
        sessionToken := some "x", expiry := .after (.ofSeconds 60) }
      { delay := 1, accessKeyId := some "key", secretAccessKey := some "b",
        sessionToken := some "y", expiry := .after (.ofSeconds 60) } :=
    ⟨rfl, .inr ⟨"a", rfl, "b", rfl, by decide, by decide⟩, rfl⟩
  obtain ⟨hscripts, -⟩ := secrets_stay_apart Cache.plainRequest .epoch none
    (plannedWith "a" "x") (plannedWith "b" "y") (.cons halike .nil)
  obtain ⟨-, hdone⟩ :=
    hscripts [(0, .retrieveMany [0, 0]), (0, .peek), (0, .debug)]
  obtain ⟨t, replies', ht, -, hlooks, -⟩ := hdone _ _ rfl
  exact ⟨t, replies', ht, hlooks.metrics⟩

end CacheSession

end CloudAccess
