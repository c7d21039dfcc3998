import CloudAccess.Proofs.Cache.Effects

/-!
# Sets that are handed out

A retrieval is handed a set by its first look at the slot, by its second look,
or by its own assumption.  The looks take the window into account, and the
assumption only the expiry; whichever it is, the set is not expired at that
moment by the clock of the retrieval's own handle.

* `after` is a cache after a list of actions, and `reaches_iff_after` joins it
  to the states that a cache can reach.
* `exists_end` and `fated_after_iff` find the action that ends a retrieval.
* `Effect.unexpired` is the step: a retrieval that is live before and has a
  set after has one that is not expired.
* `returned_unexpired` finds that step in every run.
-/

namespace CloudAccess.Cache

variable {s t : Cache} {a : Action} {i : Nat} {r : Retrieval}
  {c : CredentialSet}

/-! ## Runs -/

/-- A cache after some actions. -/
def after (s : Cache) (run : List Action) : Cache := run.foldl act s

theorem after_append (s : Cache) (run run' : List Action) :
    s.after (run ++ run') = (s.after run).after run' := List.foldl_append

theorem after_concat (s : Cache) (run : List Action) (a : Action) :
    s.after (run ++ [a]) = (s.after run).act a := by
  simp [after]

/-- A run goes on after one of its actions. -/
theorem after_append_cons (s : Cache) (before : List Action) (a : Action)
    (later : List Action) :
    s.after (before ++ a :: later) = (s.after (before ++ [a])).after later := by
  rw [← after_append, List.append_assoc, List.singleton_append]

/-- The states that a cache reaches are those after some actions. -/
theorem reaches_iff_after : s.Reaches t ↔ ∃ run, t = s.after run := by
  constructor
  · intro h
    induction h with
    | refl => exact ⟨[], rfl⟩
    | step _ hs ih =>
      obtain ⟨run, rfl⟩ := ih
      obtain ⟨a, rfl⟩ := hs
      exact ⟨run ++ [a], (after_concat _ _ _).symm⟩
  · rintro ⟨run, rfl⟩
    induction run generalizing s with
    | nil => exact .refl
    | cons a run ih => exact (reaches_act s a).trans ih

/-! ## One step -/

/-- A retrieval that a step hands a set does not get an expired one. -/
theorem Effect.unexpired (he : s.Effect a t) (hlive : s.IsLive i)
    (hr : t.retrievals[i]? = some r) (hf : r.fate = some (.returned (.ok c))) :
    ∀ expiry ∈ c.expiresAt, t.now r.handle < expiry := by
  obtain ⟨hclocks, hhow⟩ := he.handed hlive hr hf
  have hnow : t.now r.handle = s.now r.handle := by simp only [now, hclocks]
  rw [hnow]
  rcases hhow with ⟨_, _, hl⟩ | ⟨_, _, _, hlt⟩
  · exact lt_of_fresh hl
  · exact hlt

/-! ## Every run -/

/-- A retrieval that has ended stays as it is. -/
theorem ended_after (run : List Action) (hr : s.retrievals[i]? = some r)
    (hf : r.fate.isSome = true) : (s.after run).retrievals[i]? = some r := by
  induction run generalizing s with
  | nil => exact hr
  | cons a run ih => exact ih ((s.effect_act a).ended hr hf)

/-- A retrieval that ends in a run was live until one of its actions. -/
theorem exists_end (run : List Action)
    (hopen : ∀ v, s.retrievals[i]? = some v → v.fate = none)
    (hr : (s.after run).retrievals[i]? = some r) (hf : r.fate.isSome = true) :
    ∃ before a later, run = before ++ a :: later ∧ (s.after before).IsLive i ∧
      (s.after (before ++ [a])).retrievals[i]? = some r := by
  induction run generalizing s with
  | nil =>
    rw [hopen r hr] at hf
    cases hf
  | cons a run ih =>
    by_cases hstill : ∀ v, (s.act a).retrievals[i]? = some v → v.fate = none
    · obtain ⟨before, b, later, rfl, hlive, hend⟩ := ih hstill hr
      exact ⟨a :: before, b, later, rfl, hlive, hend⟩
    · obtain ⟨v, hv⟩ := Classical.not_forall.1 hstill
      obtain ⟨hv, hended⟩ := Classical.not_imp.1 hv
      have hsome : v.fate.isSome = true := by
        cases hfate : v.fate with
        | none => exact absurd hfate hended
        | some fate => rfl
      have hsame : (s.after (a :: run)).retrievals[i]? = some v :=
        ended_after run hv hsome
      obtain rfl := Option.some.inj (hsame.symm.trans hr)
      refine ⟨[], a, run, rfl, ?_, hv⟩
      cases hbefore : s.retrievals[i]? with
      | none => exact absurd ((s.effect_act a).begins hbefore hv).2 hended
      | some w =>
        have hw := hopen w hbefore
        obtain ⟨h, phase, fate⟩ := w
        cases hw
        exact ⟨h, phase, hbefore⟩

/-- A retrieval has ended in some way after a run exactly when one of its
actions ended it so. -/
theorem fated_after_iff (hopen : ∀ v, s.retrievals[i]? = some v → v.fate = none)
    {run : List Action} {fate : Retrieval.Fate} :
    (∃ r, (s.after run).retrievals[i]? = some r ∧ r.fate = some fate) ↔
      ∃ before a later, run = before ++ a :: later ∧ (s.after before).IsLive i ∧
        ∃ r, ((s.after before).act a).retrievals[i]? = some r ∧
          r.fate = some fate := by
  constructor
  · rintro ⟨r, hr, hf⟩
    obtain ⟨before, a, later, hrun, hlive, hend⟩ :=
      exists_end run hopen hr (by rw [hf]; rfl)
    rw [after_concat] at hend
    exact ⟨before, a, later, hrun, hlive, r, hend, hf⟩
  · rintro ⟨before, a, later, rfl, -, r, hr, hf⟩
    refine ⟨r, ?_, hf⟩
    rw [after_append]
    exact ended_after later hr (by rw [hf]; rfl)

/-- Whatever is done to a cache that was unused, and in whatever order: a
retrieval that has returned a set was live until some action, and after that
action the clock of its handle read less than the expiry of the set. -/
theorem returned_unexpired (request : Request) (clocks : List Instant)
    (run : List Action) (i : Nat) (r : Retrieval) (c : CredentialSet)
    (hr : ((unused request clocks).after run).retrievals[i]? = some r)
    (hf : r.fate = some (.returned (.ok c))) :
    ∃ before a later, run = before ++ a :: later ∧
      ((unused request clocks).after before).IsLive i ∧
      ((unused request clocks).after (before ++ [a])).retrievals[i]? = some r ∧
      ∀ expiry ∈ c.expiresAt,
        ((unused request clocks).after (before ++ [a])).now r.handle <
          expiry := by
  have hopen : ∀ v, (unused request clocks).retrievals[i]? = some v →
      v.fate = none := by
    simp [unused]
  obtain ⟨before, a, later, hrun, hlive, hend⟩ :=
    exists_end run hopen hr (by rw [hf]; rfl)
  have hstep : ((unused request clocks).after before).Effect a
      ((unused request clocks).after (before ++ [a])) := by
    rw [after_concat]
    exact effect_act _ a
  exact ⟨before, a, later, hrun, hlive, hend, hstep.unexpired hlive hend hf⟩

/-! ## A cache with one clock -/

/-- A request for the default session. -/
def plainRequest : Request where
  roleArn := ⟨"arn:aws:iam::1:role/reader", by decide +kernel⟩
  sessionName := ⟨"session", by decide +kernel⟩
  duration := Request.defaultDuration
  duration_allowed := by decide

/-- A handle that counts a set as stale ten seconds before its expiry. -/
def cautious : Handle := { asked := .ofSeconds 10 }

/-- A set that expires a hundred seconds after the start of 1970. -/
def lasting : CredentialSet := ⟨"key", ⟨"secret"⟩, none, some ⟨100000000000, 0⟩⟩

/-- One retrieval assumes the role, and another one finds its set when the
clock has moved on. -/
def refill : List Action :=
  [.start cautious, .enter 0, .acquire 0, .settle 0 (.value lasting),
    .setClock 0 ⟨89000000000, 0⟩, .start cautious, .enter 1]

theorem returned_unexpired_refill :
    ((unused plainRequest [.epoch]).after refill).retrievals[1]? =
        some ⟨cautious, .started, some (.returned (.ok lasting))⟩ ∧
      ∃ before a later, refill = before ++ a :: later ∧
        ((unused plainRequest [.epoch]).after before).IsLive 1 ∧
        ((unused plainRequest [.epoch]).after (before ++ [a])).retrievals[1]? =
          some ⟨cautious, .started, some (.returned (.ok lasting))⟩ ∧
        ∀ expiry ∈ lasting.expiresAt,
          ((unused plainRequest [.epoch]).after (before ++ [a])).now cautious <
            expiry := by
  have hend : ((unused plainRequest [.epoch]).after refill).retrievals[1]? =
      some ⟨cautious, .started, some (.returned (.ok lasting))⟩ := rfl
  exact ⟨hend, returned_unexpired plainRequest [.epoch] refill 1 _
    lasting hend rfl⟩

end CloudAccess.Cache
