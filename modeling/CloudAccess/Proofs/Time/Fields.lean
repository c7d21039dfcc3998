import CloudAccess.Time.Instant

/-!
# Instants and their nine numbers

An instant is written down by nine numbers, of which the last three are its
offset in hours, minutes and seconds, all with the sign of the offset.

* `Instant.Shown` says which instants a clock can show, and
  `ofParts?_eq_some_iff` that these are what parts of a universal time and an
  offset make up.
* `Shown.ofFields_fields` says that such an instant is named by its nine
  numbers, and `shown_of_ofFields` that nine numbers name no other.
-/

namespace CloudAccess

/-- Later years begin later. -/
theorem Calendar.daysBeforeYear_le {a b : Int} (h : a ≤ b) :
    daysBeforeYear a ≤ daysBeforeYear b := by
  unfold daysBeforeYear
  omega

namespace Instant

/-- A clock can show an instant: the reading lies in the calendar, and the
offset is one of those that clocks have. -/
structure Shown (i : Instant) : Prop where
  inCalendar : i.InCalendar
  le_offset : -maxOffset ≤ i.offset
  offset_le : i.offset ≤ maxOffset

variable {i : Instant}

/-- The parts by which an instant is given are those that it has.  It is one
that a clock can show, and universal time shows it too. -/
theorem ofParts?_eq_some_iff {seconds nanos offset : Int} :
    ofParts? seconds nanos offset = some i ↔
      i.unixSeconds = seconds ∧ i.subsecNanos = nanos ∧
      i.offset = offset ∧ i.Shown ∧
        ({ i with offset := 0 } : Instant).InCalendar := by
  unfold ofParts? unixSeconds subsecNanos Span.nanosPerSecond
  dsimp only
  constructor
  · intro h
    split at h
    · rename_i hparts
      obtain ⟨hlow, hhigh, hleast, hmost, huniversal, hshown⟩ := hparts
      cases h
      refine ⟨?_, ?_, rfl, ⟨hshown, hleast, hmost⟩, huniversal⟩ <;>
        dsimp only <;> omega
    · cases h
  · rintro ⟨rfl, rfl, rfl, ⟨hshown, hleast, hmost⟩, huniversal⟩
    have hnanos : i.unixNanos / 1000000000 * 1000000000 +
        i.unixNanos % 1000000000 = i.unixNanos := by omega
    rw [hnanos, if_pos ⟨by omega, by omega, hleast, hmost, huniversal, hshown⟩]

/-! ## The offset -/

/-- The parts of an offset have its sign, and are those of its absolute
value. -/
theorem offset_parts (i : Instant) : ∃ (sign : Int) (h m s : Nat),
    (sign = 1 ∨ sign = -1) ∧ m < 60 ∧ s < 60 ∧
    i.offset = sign * (h * 3600 + m * 60 + s) ∧
      i.offsetHours = sign * h ∧ i.offsetMinutes = sign * m ∧
        i.offsetSeconds = sign * s := by
  unfold offsetHours offsetMinutes offsetSeconds
  rcases Int.natAbs_eq i.offset with heq | heq <;>
    generalize i.offset.natAbs = n at heq
  · refine ⟨1, n / 3600, n % 3600 / 60, n % 60, .inl rfl,
      by omega, by omega, by omega, ?_⟩
    simp only [heq, Int.one_mul]
    exact ⟨rfl, rfl, rfl⟩
  · refine ⟨-1, n / 3600, n % 3600 / 60, n % 60, .inr rfl,
      by omega, by omega, by omega, ?_⟩
    simp only [heq, Int.neg_tdiv, Int.neg_tmod, Int.neg_one_mul]
    exact ⟨rfl, rfl, rfl⟩

/-- Parts with one sign make up an offset with this sign. -/
theorem Fields.offset_eq {f : Fields} {sign : Int} {h m s : Nat}
    (hsign : sign = 1 ∨ sign = -1) (hh : f.offsetHour = sign * h)
    (hm : f.offsetMinute = sign * m) (hs : f.offsetSecond = sign * s) :
    f.offset = sign * (h * 3600 + m * 60 + s) := by
  have hruling (n : Nat) (hn : n ≠ 0) : (sign * n).sign = sign := by
    rw [Int.sign_mul, Int.sign_natCast_of_ne_zero hn, Int.mul_one]
    rcases hsign with rfl | rfl <;> rfl
  have habs (n : Nat) : (sign * n).natAbs = n := by
    rcases hsign with rfl | rfl <;> simp
  have hzero (n : Nat) : sign * n = 0 ↔ n = 0 := by
    rcases hsign with rfl | rfl <;> omega
  unfold offset offsetSign
  rw [hh, hm, hs, habs, habs, habs]
  simp only [ne_eq, hzero]
  split
  · rw [hruling h ‹_›]
  · split
    · rw [hruling m ‹_›]
    · by_cases hn : s = 0
      · simp_all
      · rw [hruling s hn]

/-- The three parts of an offset make it up. -/
theorem offset_fields (i : Instant) : i.fields.offset = i.offset := by
  obtain ⟨sign, h, m, s, hsign, -, -, heq, hh, hm, hs⟩ := i.offset_parts
  rw [heq]
  exact Fields.offset_eq hsign hh hm hs

theorem Fields.offsetSign_cases (f : Fields) :
    f.offsetSign = 1 ∨ f.offsetSign = 0 ∨ f.offsetSign = -1 := by
  unfold offsetSign
  split
  · exact Int.sign_trichotomy _
  · split <;> exact Int.sign_trichotomy _

/-! ## The ranges of the parts -/

theorem ite_some_eq_none_iff {α : Type} {p : Prop} [Decidable p] {a : α}
    {rest : Option α} :
    (if ¬p then some a else rest) = none ↔ p ∧ rest = none := by
  by_cases h : p <;> simp [h]

/-- No part is out of its range exactly when each is in its own. -/
theorem Fields.firstOutOfRange_eq_none_iff {f : Fields} :
    f.firstOutOfRange = none ↔
      (-9999 ≤ f.year ∧ f.year ≤ 9999) ∧
        (1 ≤ f.ordinal ∧ f.ordinal ≤ Calendar.daysInYear f.year) ∧
        (0 ≤ f.hour ∧ f.hour < 24) ∧ (0 ≤ f.minute ∧ f.minute < 60) ∧
        (0 ≤ f.second ∧ f.second < 60) ∧
        (0 ≤ f.nanosecond ∧ f.nanosecond < Span.nanosPerSecond) ∧
        (-25 ≤ f.offsetHour ∧ f.offsetHour ≤ 25) ∧
        (-59 ≤ f.offsetMinute ∧ f.offsetMinute ≤ 59) ∧
        (-59 ≤ f.offsetSecond ∧ f.offsetSecond ≤ 59) := by
  simp only [firstOutOfRange, ite_some_eq_none_iff, and_true]

/-! ## The reading -/

theorem localNanos_fields (i : Instant) :
    i.fields.localNanos = i.localNanos := by
  have hday := Calendar.dayOf_yearOf i.day
  show Calendar.dayOf (Calendar.yearOf i.day) (Calendar.ordinalOf i.day) *
    _ + _ + _ = _
  rw [hday]
  simp only [day, hour, minute, second, nanosecond, nanosOfDay,
    nanosPerDay, fields, Span.nanosPerSecond]
  omega

/-- The reading of a clock names a day of the calendar. -/
theorem year_bounds (h : i.InCalendar) : -9999 ≤ i.year ∧ i.year ≤ 9999 := by
  obtain ⟨hstart, hend⟩ := h
  have hday : Calendar.daysBeforeYear (-9999) ≤ i.day ∧
      i.day < Calendar.daysBeforeYear 10000 := by
    unfold calendarStart calendarEnd nanosPerDay at *
    unfold day nanosPerDay
    omega
  obtain ⟨hbefore, hafter⟩ := Calendar.daysBeforeYear_yearOf i.day
  constructor
  · refine Int.not_lt.1 fun hlt => ?_
    have hle := Calendar.daysBeforeYear_le (Int.add_one_le_of_lt hlt)
    exact Int.not_lt.2 hday.1 (Int.lt_of_lt_of_le hafter hle)
  · refine Int.not_lt.1 fun hlt => ?_
    have hle := Calendar.daysBeforeYear_le (Int.add_one_le_of_lt hlt)
    exact Int.not_lt.2 (Int.le_trans hle hbefore) hday.2

/-- All parts of an instant that a clock can show lie in their ranges. -/
theorem Shown.firstOutOfRange_fields (h : i.Shown) :
    i.fields.firstOutOfRange = none := by
  have hyear := year_bounds h.inCalendar
  have hordinal := Calendar.ordinalOf_bounds i.day
  have htime : (0 ≤ i.hour ∧ i.hour < 24) ∧ (0 ≤ i.minute ∧ i.minute < 60) ∧
      (0 ≤ i.second ∧ i.second < 60) ∧
      (0 ≤ i.nanosecond ∧ i.nanosecond < Span.nanosPerSecond) := by
    unfold hour minute second nanosecond nanosOfDay nanosPerDay
      Span.nanosPerSecond
    omega
  have hoffset : (-25 ≤ i.offsetHours ∧ i.offsetHours ≤ 25) ∧
      (-59 ≤ i.offsetMinutes ∧ i.offsetMinutes ≤ 59) ∧
      (-59 ≤ i.offsetSeconds ∧ i.offsetSeconds ≤ 59) := by
    obtain ⟨sign, h', m, s, hsign, hm, hs, heq, hh, hmin, hsec⟩ :=
      i.offset_parts
    have hle := h.le_offset
    have hle' := h.offset_le
    unfold maxOffset at hle hle'
    rcases hsign with rfl | rfl <;> omega
  exact Fields.firstOutOfRange_eq_none_iff.2 ⟨hyear, hordinal,
    htime.1, htime.2.1, htime.2.2.1, htime.2.2.2, hoffset⟩

/-- The nine numbers of an instant that a clock can show name it. -/
theorem Shown.ofFields_fields (h : i.Shown) : ofFields i.fields = .ok i := by
  rw [ofFields, h.firstOutOfRange_fields]
  simp [offset_fields, localNanos_fields, localNanos]

/-- The reading of a clock that the parts of a date and of a time of day make up
lies in the calendar. -/
theorem Fields.localNanos_bounds {f : Fields} (h : f.firstOutOfRange = none) :
    calendarStart ≤ f.localNanos ∧ f.localNanos < calendarEnd := by
  obtain ⟨hyear, hordinal, hhour, hminute, hsecond, hnano, -⟩ :=
    firstOutOfRange_eq_none_iff.1 h
  have hfirst := Calendar.daysBeforeYear_le hyear.1
  have hlast := Calendar.daysBeforeYear_le (show f.year + 1 ≤ 10000 by omega)
  rw [Calendar.daysBeforeYear_succ f.year] at hlast
  unfold calendarStart calendarEnd localNanos Calendar.dayOf nanosPerDay
  unfold Span.nanosPerSecond at hnano ⊢
  omega

theorem Fields.offset_bounds {f : Fields} (h : f.firstOutOfRange = none) :
    -maxOffset ≤ f.offset ∧ f.offset ≤ maxOffset := by
  obtain ⟨-, -, -, -, -, -, hh, hm, hs⟩ := firstOutOfRange_eq_none_iff.1 h
  unfold offset maxOffset
  rcases f.offsetSign_cases with hsign | hsign | hsign <;> rw [hsign] <;> omega

/-- Nine numbers name an instant that a clock can show, or none. -/
theorem shown_of_ofFields {f : Fields} (h : ofFields f = .ok i) : i.Shown := by
  unfold ofFields at h
  split at h
  · cases h
  · rename_i hrange
    cases h
    obtain ⟨hlow, hhigh⟩ := Fields.offset_bounds hrange
    refine ⟨?_, hlow, hhigh⟩
    unfold InCalendar localNanos
    rw [Int.sub_add_cancel]
    exact Fields.localNanos_bounds hrange

end Instant

end CloudAccess
