import CloudAccess.Proofs.Provider.Desk

/-!
# The counters of operations balance

Caches, enumerations and providers report the operations that they begin and how
these return.  Whatever is done with them, the counters tell what has become of
the operations.

* `Reports` lists what reports: a cache, an enumeration and a provider, wherever
  their steps have led, with the operations that were begun there.
* `Collects` is a ledger of all that was reported in a script, whose parts may
  have reported in any order, and `Collects.balances` says that it balances.
* `step_fresh` and `apply_invalid` say what is no operation, and `reading_apply`
  what an operation of the provider adds.
* `operations_balance` puts these together.
-/

namespace CloudAccess

/-! ## Scripts -/

/-- A part of a script, by what it has reported and the operations that it has
begun: a cache after any actions, an enumeration after any actions, or a
provider whose desk has taken any steps since it was set up. -/
inductive Reports : Ledger → List Operation → Prop
  | cache {request : Request} {clocks : List Instant} {s : Cache}
      (h : (Cache.unused request clocks).Reaches s) :
      Reports s.ledger s.operations
  | enumeration {e : Enumerator} {signals : Signals} {caller : Cancellation}
      {r : Run} (h : (Run.start e signals caller).Reaches r) :
      Reports (r.account (Run.announce {})) [⟨.enumeration, r.driver.verdict⟩]
  | provider {request : Request} {clocks : List Instant}
      {config : ProviderConfig} {directory : Directory} {scene : PlannedCache}
      {steps : Nat} {s : ProviderSession} {d : Desk}
      (hscene : (Cache.unused request clocks).Reaches scene.cache)
      (hs : ProviderSession.init config directory scene steps = .ok s)
      (h : Desk.Reaches ⟨s, []⟩ d) : Reports d.session.cache.ledger d.operations

/-- A provider that is set up has acted on its cache and reported an event. -/
theorem ProviderSession.logs_init {config : ProviderConfig}
    {directory : Directory} {scene : PlannedCache} {steps : Nat}
    {s : ProviderSession} (hs : init config directory scene steps = .ok s) :
    scene.cache.ledger.Logs s.cache.ledger scene.cache.operations
      s.cache.operations := by
  have hretrieves := (Batch.reaches_run scene [Provider.handle] none).logs
  unfold init at hs
  dsimp only at hs
  split at hs
  · obtain rfl := Except.ok.inj hs
    exact hretrieves.trans (Ledger.logs_report _ _ _)
  · cases hs

/-- All that a part of a script has reported is about its operations. -/
theorem Reports.logs {l : Ledger} {ops : List Operation} (h : Reports l ops) :
    ({} : Ledger).Logs l [] ops := by
  cases h with
  | cache h => exact h.logs
  | enumeration h =>
    exact (Ledger.logs_enter {} .enumeration "enumerate").trans
      (Run.logs_account _ _)
  | provider hscene hs h =>
    exact (hscene.logs.trans (ProviderSession.logs_init hs)).trans
      (Desk.accounted_reaches h).logs

namespace Ledger

/-- A ledger of all that the parts of a script have reported, in any order. -/
structure Collects (l : Ledger) (parts : List (Ledger × List Operation)) :
    Prop where
  spans : l.spans.Perm (parts.flatMap (·.1.spans))
  outcomes : l.outcomes.Perm (parts.flatMap (·.1.outcomes))

/-- Two ledgers together. -/
theorem reading_append (spans spans' : List OpSpan)
    (outcomes outcomes' : List (OpKind × OpOutcome)) (kind : OpKind)
    (d : Dial) :
    ({ spans := spans ++ spans', outcomes := outcomes ++ outcomes' } :
      Ledger).reading kind d =
      ({ spans := spans, outcomes := outcomes } : Ledger).reading kind d +
        ({ spans := spans', outcomes := outcomes' } : Ledger).reading
          kind d := by
  cases d with
  | spans => exact List.countP_append
  | outcome o => exact List.count_append

/-- A ledger that collects the reports of a script is about all its
operations. -/
theorem Collects.logs {l : Ledger} {parts : List (Ledger × List Operation)}
    (hl : l.Collects parts) (hparts : ∀ p ∈ parts, Reports p.1 p.2) :
    ({} : Ledger).Logs l [] (parts.flatMap (·.2)) := by
  have hall : ({} : Ledger).Logs
      { spans := parts.flatMap (·.1.spans)
        outcomes := parts.flatMap (·.1.outcomes) } []
      (parts.flatMap (·.2)) := by
    clear hl
    induction parts with
    | nil => exact .refl _ _
    | cons p parts ih =>
      intro kind d
      have hfirst := (hparts p List.mem_cons_self).logs kind d
      have hrest := ih (fun q hq => hparts q (List.mem_cons_of_mem p hq)) kind d
      have hsame : ({ spans := p.1.spans, outcomes := p.1.outcomes } :
          Ledger).reading kind d = p.1.reading kind d := by
        cases d <;> rfl
      simp only [List.flatMap_cons, reading_append, List.countP_append, hsame]
      simp only [List.countP_nil, reading_empty] at hfirst hrest ⊢
      omega
  intro kind d
  rw [← hall kind d]
  cases d with
  | spans => exact congrArg (· + _) (hl.spans.countP_eq _)
  | outcome o => exact congrArg (· + _) (hl.outcomes.count_eq _)

end Ledger

/-! ## Retrievals on the fast path -/

namespace PlannedCache

/-- A retrieval that finds a fresh set at its first look is handed it, is no
operation, and sends no request. -/
theorem step_fresh {p : PlannedCache} {unit i : Nat} {h : Handle}
    {c : CredentialSet} (hr : p.cache.retrievals[i]? = some ⟨h, .started, none⟩)
    (hl : p.cache.lookup h = .fresh c) :
    (p.step unit i).fate? i = some (.returned (.ok c)) ∧
      (p.step unit i).cache.ledger = p.cache.ledger ∧
      (p.step unit i).cache.operations = p.cache.operations ∧
      (p.step unit i).sent = p.sent ∧ (p.step unit i).flights = p.flights := by
  have hstep : p.step unit i =
      { p with cache := p.cache.hit.setFate i (.returned (.ok c)) } := by
    simp only [step, hr, act, Cache.enter_of_fresh hr hl]
  rw [hstep]
  refine ⟨by simp [fate?, hr], rfl, ?_, rfl, rfl⟩
  obtain ⟨hlt, hat⟩ := List.getElem?_eq_some_iff.1 hr
  obtain ⟨before, r, after, hsplit, hlength, hmodify⟩ := List.exists_of_modify
    ({ · with fate := some (.returned (.ok c)) } : Retrieval → Retrieval) hlt
  have hstarted : r.missed = false := by
    subst hlength
    simp only [hsplit, List.getElem_append_right (Nat.le_refl _), Nat.sub_self,
      List.getElem_cons_zero] at hat
    rw [hat]
    rfl
  have hended : ({ r with fate := some (.returned (.ok c)) } :
      Retrieval).missed = false :=
    hstarted
  unfold Cache.operations
  show ((p.cache.retrievals.modify i _).filter Retrieval.missed).map _ = _
  rw [hmodify, hsplit]
  simp [List.filter_append, hstarted, hended]

end PlannedCache

/-! ## Options of an argument -/

namespace ProviderSession

/-- The options of an argument that the provider does not have are refused.
Nothing is reported and no call is made. -/
theorem apply_invalid (s : ProviderSession) {arg : String}
    (hset : arg ≠ Provider.permissionSetArg)
    (haccount : arg ≠ Provider.accountArg) :
    (s.apply (.options arg)).2.1 = .refused (.invalidArgument arg) ∧
      (s.apply (.options arg)).1.world.scene = s.world.scene ∧
      (s.apply (.options arg)).1.calls = [] := by
  have happly : s.apply (.options arg) =
      (s.forgetCalls, .refused (.invalidArgument arg), {}) := by
    show s.forgetCalls.listOptions arg = _
    rw [listOptions, if_neg hset, if_neg haccount]
  rw [happly]
  exact ⟨rfl, rfl, rfl⟩

/-- An operation of the provider reports what its reply says, beside what has
become of the retrievals. -/
theorem logs_apply (s : ProviderSession) (op : ProviderOp) :
    s.cache.ledger.Logs (s.apply op).1.cache.ledger s.cache.operations
      ((s.apply op).1.cache.operations ++ op.operations (s.apply op).2.1) := by
  obtain ⟨more, hreach, hops⟩ := Desk.reaches_apply s [] op
  have hlogs := (Desk.accounted_reaches hreach).logs
  rwa [Desk.operations, List.nil_append, hops] at hlogs

/-- What an operation of the provider adds about a kind that retrievals are not
is what its reply says. -/
theorem reading_apply (s : ProviderSession) (op : ProviderOp) {kind : OpKind}
    (hkind : kind ≠ .credentialRetrieve) (d : Ledger.Dial) :
    (s.apply op).1.cache.ledger.reading kind d =
      s.cache.ledger.reading kind d +
        (op.operations (s.apply op).2.1).countP (·.counted kind d) := by
  have hlogs := s.logs_apply op kind d
  rw [List.countP_append, Cache.countP_operations_of_ne _ hkind,
    Cache.countP_operations_of_ne _ hkind] at hlogs
  omega

end ProviderSession

/-! ## The balance -/

/-- Whatever is done with caches, enumerations and providers, and in whatever
order they report: of each kind a span was opened for each operation that was
begun, and each was counted as an attempt; the successes and the failures are
the operations that have returned a value and an error; and the rest of the
attempts are those that were given up, have crashed or are still under way.  A
retrieval that finds a fresh set at its first look is no operation and sends
nothing, and neither are the options of an argument that the provider does not
have.  The permission sets, listed as options, are one operation on options and
one enumeration, which return alike, and the accounts are one operation on
options. -/
theorem operations_balance :
    (∀ (parts : List (Ledger × List Operation)) (l : Ledger),
      (∀ p ∈ parts, Reports p.1 p.2) → l.Collects parts →
        ∀ kind, l.Balances kind (parts.flatMap (·.2))) ∧
    (∀ (p : PlannedCache) (unit i : Nat) (h : Handle) (c : CredentialSet),
      p.cache.retrievals[i]? = some ⟨h, .started, none⟩ →
        p.cache.lookup h = .fresh c →
        (p.step unit i).fate? i = some (.returned (.ok c)) ∧
          (p.step unit i).cache.ledger = p.cache.ledger ∧
          (p.step unit i).cache.operations = p.cache.operations ∧
          (p.step unit i).sent = p.sent ∧ (p.step unit i).flights = p.flights) ∧
    (∀ (s : ProviderSession) (arg : String), arg ≠ Provider.permissionSetArg →
      arg ≠ Provider.accountArg →
        (s.apply (.options arg)).2.1 = .refused (.invalidArgument arg) ∧
          (s.apply (.options arg)).1.world.scene = s.world.scene ∧
          (s.apply (.options arg)).1.calls = []) ∧
    ∀ s : ProviderSession,
      (∃ ending,
        (s.apply (.options Provider.permissionSetArg)).2.1 =
          .permissionSets ending ∧
        ∀ kind ≠ OpKind.credentialRetrieve, ∀ d,
          (s.apply (.options Provider.permissionSetArg)).1.cache.ledger.reading
              kind d =
            s.cache.ledger.reading kind d +
              [Operation.mk .options ending.verdict,
                ⟨.enumeration, ending.verdict⟩].countP
                (·.counted kind d)) ∧
      ∃ ending,
        (s.apply (.options Provider.accountArg)).2.1 = .accounts ending ∧
        ∀ kind ≠ OpKind.credentialRetrieve, ∀ d,
          (s.apply (.options Provider.accountArg)).1.cache.ledger.reading
              kind d =
            s.cache.ledger.reading kind d +
              [Operation.mk .options ending.verdict].countP
                (·.counted kind d) := by
  refine ⟨fun parts l hparts hl kind => (hl.logs hparts).balances kind, ?_, ?_,
    fun s => ⟨?_, ?_⟩⟩
  · intro p unit i h c hr hl
    exact PlannedCache.step_fresh hr hl
  · intro s arg hset haccount
    exact s.apply_invalid hset haccount
  · exact ⟨_, rfl, fun kind hkind d =>
      s.reading_apply (.options Provider.permissionSetArg) hkind d⟩
  · exact ⟨_, rfl, fun kind hkind d =>
      s.reading_apply (.options Provider.accountArg) hkind d⟩

/-- A cache whose first assumption brings a set that never expires. -/
def lastingScene : PlannedCache :=
  ProviderSession.emptyScene Cache.plainRequest
    [{ accessKeyId := some "key", secretAccessKey := some "secret" }] .epoch

/-- What a provider is told that is set up with it. -/
def lastingConfig : ProviderConfig where
  roleArn := ⟨"arn:aws:iam::1:role/lister", by decide +kernel⟩
  instanceArn := ⟨"arn:aws:sso:::instance/1", by decide +kernel⟩
  identityStoreId := ⟨"d-1", by decide +kernel⟩
  region := none

/-- The provider. -/
def lastingProvider : ProviderSession :=
  ({ config := lastingConfig
     directory := ({} : PlannedDirectory)
     world := { scene := (ProviderSession.retrieve lastingScene).scene }
     steps := 0 } : ProviderSession).report
    (·.report
      [.providerConfigured lastingConfig.instanceArn.text
        lastingConfig.identityStoreId.text])

/-- Its desk once the permission sets were asked for as options. -/
def askedDesk : Desk :=
  let s :=
    (lastingProvider.enterOptions true "permission_sets").report Run.announce
  ⟨s, [{ asOptions := true
         work := .sets (.start s.enumerator s.world true none none) }]⟩

/-- A cache that was used by many, an enumeration that has not made a move, and
a desk. -/
def smallScript : List (Ledger × List Operation) :=
  [(((Cache.unused Cache.plainRequest [.epoch]).after Cache.bustle).ledger,
      ((Cache.unused Cache.plainRequest [.epoch]).after
        Cache.bustle).operations),
    ((Run.start .standard {} (Signals.newHandle {}).1).account
      (Run.announce {}),
      [⟨.enumeration, (Run.start .standard {}
        (Signals.newHandle {}).1).driver.verdict⟩]),
    (askedDesk.session.cache.ledger, askedDesk.operations)]

/-- What the small script reports. -/
def smallLedger : Ledger where
  spans := smallScript.flatMap (·.1.spans)
  outcomes := smallScript.flatMap (·.1.outcomes)

theorem operations_balance_small :
    smallLedger.count .credentialRetrieve .attempt = 5 ∧
      5 = 2 + 1 + (smallScript.flatMap (·.2)).count
        ⟨.credentialRetrieve, none⟩ ∧
      smallLedger.spans.countP (·.kind = .enumeration) = 2 ∧
      2 = (smallScript.flatMap (·.2)).countP (·.kind = .enumeration) ∧
      smallLedger.count .options .attempt = 1 ∧
      smallLedger.count .options .success = 0 := by
  have hcache : (Cache.unused Cache.plainRequest [.epoch, .epoch]).Reaches
      lastingScene.cache :=
    .refl
  have hinit : ProviderSession.init lastingProvider.config
      lastingProvider.directory lastingScene 0 = .ok lastingProvider := rfl
  have hasked : Desk.Reaches ⟨lastingProvider, []⟩ askedDesk :=
    .single (.lists true true none none rfl)
  have hreports : ∀ p ∈ smallScript, Reports p.1 p.2 := by
    simp only [smallScript, List.forall_mem_cons]
    exact ⟨.cache (Cache.reaches_iff_after.2 ⟨Cache.bustle, rfl⟩),
      .enumeration .refl, .provider hcache hinit hasked, nofun⟩
  have hbalances :=
    operations_balance.1 smallScript smallLedger hreports ⟨.refl _, .refl _⟩
  exact ⟨rfl, (hbalances .credentialRetrieve).total, rfl,
    (hbalances .enumeration).attempts, rfl, rfl⟩

end CloudAccess
