import CloudAccess.Request

/-!
# How a request for too short or too long a session is refused

* `RequestDraft.Named` says that the names of a draft are accepted, so that only
  its duration is left to be checked.
* `build_error_iff` says which durations are refused, and with which error.
* `wholeSeconds_supported_iff` compares the seconds that the error shows, cut
  off toward zero, with the range that it shows.  They contradict each other
  within the second after the longest session.
-/

namespace CloudAccess.RequestDraft

/-- The role of the draft is accepted, and so is the name of the session unless
it is left to be generated. -/
structure Named (d : RequestDraft) : Prop where
  role : ∃ roleArn, Identifier.new? .roleArn d.roleArn = .ok roleArn
  session : ∀ s ∈ d.sessionName, ∃ name, Identifier.new? .sessionName s =
    .ok name

variable {d : RequestDraft}

/-- A draft with accepted names is refused for its duration alone. -/
theorem build_error_iff (hd : d.Named) (generated : SessionName)
    {e : AccessError} :
    d.build generated = .error e ↔
      (d.duration < .ofSeconds 900 ∨ .ofSeconds 43200 < d.duration) ∧
        e = .config
          (.durationOutOfRange d.duration.wholeSeconds 900 43200) := by
  obtain ⟨⟨roleArn, hrole⟩, hsession⟩ := hd
  obtain ⟨name, hname⟩ : ∃ name,
      d.sessionName.elim (.ok generated) (Identifier.new? .sessionName) =
      .ok name := by
    cases hgiven : d.sessionName with
    | none => exact ⟨generated, rfl⟩
    | some s => exact hsession s hgiven
  have hallowed : ¬Request.DurationAllowed d.duration ↔
      d.duration < .ofSeconds 900 ∨ .ofSeconds 43200 < d.duration := by
    simp only [Request.DurationAllowed, Request.minDuration,
      Request.maxDuration, Span.le_iff, Span.lt_iff]
    omega
  simp only [build, hrole, hname, ← hallowed]
  split
  · simp_all
  · rename_i h
    simp only [Except.error.injEq, h, not_false_eq_true, true_and]
    exact eq_comm

/-- The seconds of an outlying duration, cut off toward zero, look supported
only where they are cut off to those of the longest session. -/
theorem wholeSeconds_supported_iff {duration : Span}
    (h : duration < .ofSeconds 900 ∨ .ofSeconds 43200 < duration) :
    900 ≤ duration.wholeSeconds ∧ duration.wholeSeconds ≤ 43200 ↔
      .ofSeconds 43200 < duration ∧ duration < .ofSeconds 43201 := by
  simp only [Span.lt_iff, Span.ofSeconds, Span.wholeSeconds,
    Span.nanosPerSecond] at h ⊢
  rcases Int.le_total 0 duration.nanos with hsign | hsign
  · rw [Int.tdiv_eq_ediv_of_nonneg hsign]
    omega
  · have hcut : duration.nanos.tdiv 1000000000 ≤ 0 :=
      Span.tdiv_nonpos hsign (by decide)
    omega

/-- A draft with accepted names is refused exactly when its duration, to the
nanosecond, lies outside the range from 900 to 43200 seconds, and the error
shows the range and the whole seconds of the duration.  The shown seconds lie
outside the shown range too, unless the duration exceeds the longest session by
less than a second. -/
theorem duration_refused_and_shown (hd : d.Named) (generated : SessionName) :
    (∀ e, d.build generated = .error e ↔
      (d.duration < .ofSeconds 900 ∨ .ofSeconds 43200 < d.duration) ∧
        e = .config (.durationOutOfRange d.duration.wholeSeconds 900 43200)) ∧
      ∀ seconds min max,
        d.build generated = .error
          (.config (.durationOutOfRange seconds min max)) →
        ((seconds < min ∨ max < seconds) ↔
          ¬(.ofSeconds 43200 < d.duration ∧
            d.duration < .ofSeconds 43201)) := by
  refine ⟨fun e => build_error_iff hd generated, fun seconds min max h => ?_⟩
  obtain ⟨houtside, he⟩ := (build_error_iff hd generated).1 h
  cases he
  rw [← wholeSeconds_supported_iff houtside]
  omega

/-- A role that grants access. -/
def granting : RoleArn :=
  ⟨"arn:aws:iam::123456789012:role/granted-sso", by decide +kernel⟩

/-- The name of an operator's session. -/
def operator : SessionName := ⟨"operator", by decide +kernel⟩

/-- A draft for a session of the given length. -/
def lasting (duration : Span) : RequestDraft where
  roleArn := granting.text
  duration := duration

theorem named_lasting (duration : Span) : (lasting duration).Named where
  role := ⟨granting, granting.new?_text⟩
  session s hs := by cases hs

/-- A nanosecond less than the shortest session is shown as a second less. -/
theorem duration_refused_and_shown_short :
    (lasting ⟨899999999999⟩).Named ∧
      (lasting ⟨899999999999⟩).build operator =
        .error (.config (.durationOutOfRange 899 900 43200)) ∧
      (899 : Int) < 900 := by
  have hnamed := named_lasting ⟨899999999999⟩
  obtain ⟨hrefused, hshown⟩ := duration_refused_and_shown hnamed operator
  have herror := (hrefused (.config (.durationOutOfRange 899 900 43200))).2
    ⟨.inl (by decide), by decide⟩
  refine ⟨hnamed, herror, ?_⟩
  exact ((hshown 899 900 43200 herror).2 (by decide)).resolve_right (by decide)

/-- A nanosecond more than the longest session is shown as the longest
session. -/
theorem duration_shown_supported :
    (lasting ⟨43200000000001⟩).Named ∧
      .ofSeconds 43200 < (lasting ⟨43200000000001⟩).duration ∧
      (lasting ⟨43200000000001⟩).build operator =
        .error (.config (.durationOutOfRange 43200 900 43200)) ∧
      (ConfigError.durationOutOfRange 43200 900 43200).message =
        "Session duration of 43200s is outside the supported 900s..=43200s range." :=
  ⟨named_lasting _, by decide,
    (build_error_iff (named_lasting _) _).2 ⟨.inr (by decide), by decide⟩, by
    decide +kernel⟩

end CloudAccess.RequestDraft
