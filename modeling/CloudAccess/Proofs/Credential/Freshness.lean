import CloudAccess.Credential.Set
import CloudAccess.Proofs.Time.Order

/-!
# Freshness and expiry in time

Whether a set is fresh or expired depends on moments of universal time only, and
follows their order.  The offsets of the clocks decide nothing but whether there
is an answer.

* `CredentialSet.InRange` says that a window before the expiry leads to a
  reading of the calendar.  `freshAt?_isSome_iff` says that there is an answer
  for these windows alone, and `freshAt?_of_inRange` what it is.
* `freshness_consistent` says how the answers for different instants, windows
  and offsets agree.
-/

namespace CloudAccess

/-- An instant is moved back as long as its clock stays in the calendar. -/
theorem Instant.sub?_eq_ite (i : Instant) (d : Span) :
    i.sub? d = if calendarStart ≤ i.localNanos - d.nanos ∧
    i.localNanos - d.nanos < calendarEnd
      then some ⟨i.unixNanos - d.nanos, i.offset⟩ else none := by
  have hlocal : (⟨i.unixNanos - d.nanos, i.offset⟩ : Instant).localNanos =
      i.localNanos - d.nanos := by
    simp only [localNanos]
    omega
  simp only [sub?, InCalendar, hlocal]

namespace CredentialSet

variable {c c' : CredentialSet} {now now' : Instant} {window : Span}

/-- The clock that shows the expiry, moved back by a window, stays in the
calendar. -/
def InRange (c : CredentialSet) (window : Span) : Prop :=
  ∀ expiry ∈ c.expiresAt,
    Instant.calendarStart ≤ expiry.localNanos - window.nanos ∧
      expiry.localNanos - window.nanos < Instant.calendarEnd

instance (c : CredentialSet) (window : Span) :
    Decidable (c.InRange window) := by
  unfold InRange; infer_instance

/-- Two sets expire at the same moment of universal time, or not at all. -/
def ExpireTogether (c c' : CredentialSet) : Prop :=
  Option.Rel (fun e e' => e.universal = e'.universal) c.expiresAt c'.expiresAt

/-- There is an answer for windows within the range, and for no others. -/
theorem freshAt?_isSome_iff :
    (c.freshAt? now window).isSome = true ↔ c.InRange window := by
  unfold freshAt? InRange
  cases c.expiresAt with
  | none => simp
  | some expiry =>
    simp only [Instant.sub?_eq_ite, Option.mem_some_iff, forall_eq']
    split <;> simp_all

/-- Within the range, a set is fresh when its expiry lies more than the window
ahead. -/
theorem freshAt?_of_inRange (h : c.InRange window) :
    c.freshAt? now window = some (decide (∀ expiry ∈ c.expiresAt,
      now.unixNanos + window.nanos < expiry.unixNanos)) := by
  unfold freshAt?
  unfold InRange at h
  cases hexpires : c.expiresAt with
  | none => simp
  | some expiry =>
    have hlt : now.unixNanos < expiry.unixNanos - window.nanos ↔
        now.unixNanos + window.nanos < expiry.unixNanos := by omega
    simp only [Instant.sub?_eq_ite, if_pos (h expiry hexpires),
      Instant.lt_iff, hlt, Option.mem_some_iff, forall_eq']

theorem freshAt?_eq_true_iff_of_inRange (h : c.InRange window) :
    c.freshAt? now window = some true ↔
      ∀ expiry ∈ c.expiresAt, now.unixNanos + window.nanos <
        expiry.unixNanos := by
  rw [freshAt?_of_inRange h, Option.some.injEq, decide_eq_true_eq]

theorem inRange_of_freshAt? {fresh : Bool}
    (h : c.freshAt? now window = some fresh) : c.InRange window :=
  freshAt?_isSome_iff.1 (by rw [h]; rfl)

/-- A set is not expired as long as its expiry lies ahead. -/
theorem isExpiredAt_eq_false_iff :
    c.isExpiredAt now = false ↔ ∀ expiry ∈ c.expiresAt, now < expiry := by
  rw [← Bool.not_eq_true, isExpiredAt_iff]
  simp only [not_exists, not_and, Instant.le_iff, Int.not_le]
  rfl

/-! ## Other instants and windows -/

/-- A fresh set is fresh at every earlier instant and under every smaller
window. -/
theorem freshAt?_earlier {earlier : Instant} {smaller : Span}
    (hearlier : earlier ≤ now) (hsmaller : smaller ≤ window)
    (hrange : c.InRange smaller) (h : c.freshAt? now window = some true) :
    c.freshAt? earlier smaller = some true := by
  rw [freshAt?_eq_true_iff_of_inRange (inRange_of_freshAt? h)] at h
  rw [freshAt?_eq_true_iff_of_inRange hrange]
  intro expiry hexpiry
  have hlt := h expiry hexpiry
  rw [Instant.le_iff] at hearlier
  rw [Span.le_iff] at hsmaller
  omega

/-- A set that is fresh later on is fresh now. -/
theorem freshAt?_of_le {later : Instant} (hle : now ≤ later)
    (h : c.freshAt? later window = some true) :
    c.freshAt? now window = some true :=
  freshAt?_earlier hle (Int.le_refl _) (inRange_of_freshAt? h) h

/-- A set that is stale stays so. -/
theorem freshAt?_later (hle : now ≤ now')
    (h : c.freshAt? now window = some false) :
    c.freshAt? now' window = some false := by
  have hrange := inRange_of_freshAt? h
  obtain ⟨fresh, hfresh⟩ :=
    Option.isSome_iff_exists.1 (freshAt?_isSome_iff.2 hrange)
  cases fresh with
  | false => exact hfresh
  | true =>
    rw [freshAt?_of_le hle hfresh] at h
    cases h

/-- A set that is fresh under a window from zero on expires later. -/
theorem lt_of_freshAt? (hwindow : .zero ≤ window)
    (h : c.freshAt? now window = some true) :
    ∀ expiry ∈ c.expiresAt, now < expiry := by
  rw [freshAt?_eq_true_iff_of_inRange (inRange_of_freshAt? h)] at h
  intro expiry hexpiry
  have hlt := h expiry hexpiry
  have hnonneg : (0 : Int) ≤ window.nanos := hwindow
  rw [Instant.lt_iff]
  omega

/-- A set is fresh without a window as long as it is not expired. -/
theorem freshAt?_zero_iff (hrange : c.InRange .zero) :
    c.freshAt? now .zero = some true ↔ c.isExpiredAt now = false := by
  rw [freshAt?_eq_true_iff_of_inRange hrange, isExpiredAt_eq_false_iff]
  simp [Span.zero, Instant.lt_iff]

/-- A set that is expired stays so. -/
theorem isExpiredAt_later (hle : now ≤ now') (h : c.isExpiredAt now = true) :
    c.isExpiredAt now' = true := by
  rw [isExpiredAt_iff] at h ⊢
  obtain ⟨expiry, hexpiry, hreached⟩ := h
  exact ⟨expiry, hexpiry, Int.le_trans hreached hle⟩

/-! ## Other offsets -/

theorem ExpireTogether.cases (h : ExpireTogether c c') :
    c.expiresAt = none ∧ c'.expiresAt = none ∨
      ∃ expiry expiry', c.expiresAt = some expiry ∧
        c'.expiresAt = some expiry' ∧
        expiry.unixNanos = expiry'.unixNanos := by
  unfold ExpireTogether at h
  generalize c.expiresAt = e at h ⊢
  generalize c'.expiresAt = e' at h ⊢
  cases h with
  | none => exact .inl ⟨rfl, rfl⟩
  | some h => exact .inr ⟨_, _, rfl, rfl, Instant.universal_eq_iff.1 h⟩

/-- The state of a set depends on moments of universal time alone. -/
theorem statusAt_congr (hnow : now.unixNanos = now'.unixNanos)
    (h : ExpireTogether c c') : c.statusAt now = c'.statusAt now' := by
  unfold statusAt
  rcases h.cases with ⟨hc, hc'⟩ | ⟨expiry, expiry', hc, hc', hsame⟩
  · rw [hc, hc']
  · simp only [hc, hc', Instant.le_iff, hnow, hsame]

/-- Where there are answers, whether a set is fresh depends on such moments
too. -/
theorem freshAt?_congr (hnow : now.unixNanos = now'.unixNanos)
    (h : ExpireTogether c c') (hrange : c.InRange window)
    (hrange' : c'.InRange window) :
    c.freshAt? now window = c'.freshAt? now' window := by
  rw [freshAt?_of_inRange hrange, freshAt?_of_inRange hrange']
  rcases h.cases with ⟨hc, hc'⟩ | ⟨expiry, expiry', hc, hc', hsame⟩
  · simp only [hc, hc', hnow]
  · simp only [hc, hc', hnow, hsame, Option.mem_some_iff, forall_eq']

/-! ## All answers -/

/-- Freshness and expiry follow the order of universal time. -/
theorem freshness_consistent (c : CredentialSet) :
    (∀ now window, c.InRange window →
      c.freshAt? now window = some (decide (∀ expiry ∈ c.expiresAt,
        now.unixNanos + window.nanos < expiry.unixNanos))) ∧
      (∀ now earlier window smaller, earlier.universal ≤ now.universal →
        smaller ≤ window →
        c.InRange smaller → c.freshAt? now window = some true →
        c.freshAt? earlier smaller = some true) ∧
      (∀ now window, .zero ≤ window → c.freshAt? now window = some true →
        c.isExpiredAt now = false) ∧
      (∀ now, c.InRange .zero →
        (c.freshAt? now .zero = some true ↔ c.isExpiredAt now = false)) ∧
      (∀ now later, now.universal ≤ later.universal → c.isExpiredAt now = true →
        c.isExpiredAt later = true) ∧
      (c.expiresAt = none → ∀ now window,
        c.freshAt? now window = some true ∧ c.isExpiredAt now = false) ∧
      (∀ now now' c', now.universal = now'.universal → ExpireTogether c c' →
        c.statusAt now = c'.statusAt now' ∧
          c.isExpiredAt now = c'.isExpiredAt now' ∧
          ∀ window, c.InRange window → c'.InRange window →
            c.freshAt? now window = c'.freshAt? now' window) := by
  simp only [← Instant.le_iff_universal_le, Instant.universal_eq_iff]
  refine ⟨?_, ?_, ?_, ?_, ?_, ?_, ?_⟩
  · intro now window hrange
    exact freshAt?_of_inRange hrange
  · intro now earlier window smaller
    exact freshAt?_earlier
  · intro now window hwindow hfresh
    exact isExpiredAt_eq_false_iff.2 (lt_of_freshAt? hwindow hfresh)
  · intro now hrange
    exact freshAt?_zero_iff hrange
  · intro now later
    exact isExpiredAt_later
  · intro hnone now window
    have hall (p : Instant → Prop) : ∀ expiry ∈ c.expiresAt, p expiry := by
      rw [hnone]
      exact nofun
    exact ⟨(freshAt?_eq_true_iff_of_inRange (hall _)).2 (hall _),
      isExpiredAt_eq_false_iff.2 (hall _)⟩
  · intro now now' c' hnow h
    have hstatus := statusAt_congr hnow h
    exact ⟨hstatus, by rw [isExpiredAt, isExpiredAt,
      hstatus], fun window => freshAt?_congr hnow h⟩

/-- Keys that expire with the first nanosecond of 2025 in universal time. -/
def newYearKeys (offset : Int) : CredentialSet :=
  ⟨"key", ⟨"secret"⟩, none, some ⟨1735689600000000001, offset⟩⟩

/-- Keys that do not expire. -/
def lastingKeys : CredentialSet := ⟨"key", ⟨"secret"⟩, none, none⟩

theorem freshness_consistent_newYear :
    (newYearKeys (-93599)).freshAt? ⟨1735689600000000000, 93599⟩ ⟨1⟩ =
        some false ∧
      (newYearKeys (-93599)).freshAt? ⟨1735689599999999999, 0⟩ ⟨-1⟩ =
        some true ∧
      (newYearKeys (-93599)).isExpiredAt ⟨1735689600000000000, 93599⟩ = false ∧
      (newYearKeys (-93599)).freshAt? ⟨1735689600000000001, 0⟩ .zero ≠
        some true ∧
      (newYearKeys (-93599)).isExpiredAt ⟨1735689600000000002, -93599⟩ = true ∧
      lastingKeys.freshAt? ⟨1735689600000000000, 0⟩ ⟨Instant.calendarEnd⟩ =
        some true ∧
      (newYearKeys (-93599)).freshAt? ⟨1735689600000000000, 93599⟩ .zero =
        (newYearKeys 3600).freshAt? ⟨1735689600000000000, 0⟩ .zero := by
  obtain ⟨hanswer, hearlier, hunexpired, hzero, hlater, -, hsame⟩ :=
    freshness_consistent (newYearKeys (-93599))
  obtain ⟨-, -, -, -, -, hlasting, -⟩ := freshness_consistent lastingKeys
  have hfresh : (newYearKeys (-93599)).freshAt? ⟨1735689600000000000, 93599⟩
      .zero = some true := by
    decide +kernel
  have hexpired : (newYearKeys (-93599)).isExpiredAt ⟨1735689600000000001, 0⟩ =
      true := by
    decide +kernel
  refine ⟨?_, ?_, ?_, ?_, ?_, (hlasting rfl _ _).1, ?_⟩
  · exact (hanswer _ _ (by decide +kernel)).trans (by decide +kernel)
  · exact hearlier _ _ _ _ (by decide +kernel) (by decide +kernel)
      (by decide +kernel) hfresh
  · exact hunexpired _ _ (by decide +kernel) hfresh
  · rw [ne_eq, hzero _ (by decide +kernel), hexpired]
    exact nofun
  · exact hlater _ _ (by decide +kernel) hexpired
  · have htogether : ExpireTogether (newYearKeys (-93599)) (newYearKeys 3600) :=
      .some (by decide +kernel)
    exact (hsame _ _ _ (by decide +kernel) htogether).2.2 _ (by decide +kernel)
      (by decide +kernel)

end CredentialSet

end CloudAccess
