import CloudAccess.Proofs.Identifier
import CloudAccess.Proofs.Text.Digits
import CloudAccess.Proofs.Time.Fields
import CloudAccess.SessionName

/-!
# Generated session names are valid and sort by time

* `millis_eq` says that no instant of the calendar is too late for the twelve
  digits, so that `stamp_lt_stamp` compares the digits as the milliseconds.
* `generated_valid_and_sorted` puts them together.
-/

namespace CloudAccess.SessionName

/-! ## The stamp -/

/-- The milliseconds of an instant of the calendar are those of its universal
time, or none before 1970, and fit twelve digits. -/
theorem millis_eq {i : Instant} (hi : i.Shown) :
    millis i = (i.unixNanos / 1000000).toNat ∧ millis i < Nat.pow 16 12 := by
  obtain ⟨⟨-, hend⟩, hoffset, -⟩ := hi
  have hcalendar : Instant.calendarEnd = 253402300800000000000 := by decide
  simp only [Instant.localNanos, Instant.maxOffset, Span.nanosPerSecond]
    at hend hoffset
  have hdigits : Nat.pow 16 12 = 281474976710656 := rfl
  -- Cutting off toward zero and dividing downwards differ before 1970 only,
  -- where neither counts.
  rcases Int.le_total 0 i.unixNanos with hsign | hsign
  · rw [millis, Int.tdiv_eq_ediv_of_nonneg hsign]
    split <;> omega
  · have hcut : i.unixNanos.tdiv 1000000 ≤ 0 :=
      Span.tdiv_nonpos hsign (by decide)
    rw [millis]
    split <;> omega

/-- A generated name starts with exactly twelve digits. -/
theorem stamp_eq {i : Instant} (hi : i.Shown) :
    stamp i = Text.hexFixed 12 (millis i) :=
  Text.hexPadded_eq_hexFixed (by decide) (millis_eq hi).2

theorem millis_le_millis {a b : Instant} (ha : a.Shown) (hb : b.Shown)
    (h : a ≤ b) : millis a ≤ millis b := by
  rw [Instant.le_iff] at h
  rw [(millis_eq ha).1, (millis_eq hb).1]
  omega

theorem stamp_lt_stamp {a b : Instant} (ha : a.Shown) (hb : b.Shown)
    (h : millis a < millis b) : stamp a < stamp b := by
  rw [stamp_eq ha, stamp_eq hb]
  exact Text.hexFixed_lt_hexFixed (millis_eq hb).2 h

theorem length_stamp {i : Instant} (hi : i.Shown) : (stamp i).length = 12 := by
  rw [stamp_eq hi, Text.length_hexFixed]

/-! ## The name -/

/-- The first twelve characters of a name. -/
def head (name : SessionName) : String :=
  String.ofList (name.text.toList.take 12)

theorem toList_generate (i : Instant) (e : Entropy) :
    (generate i e).text.toList = stamp i ++ Text.base64Url e.bytes :=
  String.toList_ofList

theorem length_toList_generate {i : Instant} (hi : i.Shown) (e : Entropy) :
    (stamp i ++ Text.base64Url e.bytes).length = 28 := by
  rw [List.length_append, length_stamp hi, Text.length_base64Url,
    e.length_bytes]

variable {a b : Instant} {e f : Entropy}

theorem generate_lt_generate (ha : a.Shown) (hb : b.Shown)
    (h : millis a < millis b) : (generate a e).text < (generate b f).text := by
  rw [String.lt_iff, toList_generate, toList_generate]
  exact Text.append_lt_append (by rw [length_stamp ha, length_stamp hb])
    (stamp_lt_stamp ha hb h)

theorem head_generate {i : Instant} (hi : i.Shown) (e : Entropy) :
    head (generate i e) = String.ofList (stamp i) := by
  rw [head, toList_generate, List.take_left' (length_stamp hi)]

theorem head_generate_le (ha : a.Shown) (hb : b.Shown) (h : a ≤ b) :
    head (generate a e) ≤ head (generate b f) := by
  rw [head_generate ha, head_generate hb]
  rcases Nat.lt_or_eq_of_le (millis_le_millis ha hb h) with hlt | heq
  · refine String.not_lt.1 (String.lt_asymm (String.lt_iff.2 ?_))
    simpa only [String.toList_ofList] using stamp_lt_stamp ha hb hlt
  · have hsame : stamp a = stamp b := by rw [stamp_eq ha, stamp_eq hb, heq]
    exact hsame ▸ String.le_refl _

/-- Equal names were generated from equal bytes. -/
theorem bytes_eq_of_generate_eq (ha : a.Shown) (hb : b.Shown)
    (h : generate a e = generate b f) : e.bytes = f.bytes := by
  have htexts : stamp a ++ Text.base64Url e.bytes =
      stamp b ++ Text.base64Url f.bytes := by
    rw [← toList_generate, ← toList_generate, h]
  have hstamps : (stamp a).length = (stamp b).length := by
    rw [length_stamp ha, length_stamp hb]
  exact Text.base64Url_injective (List.append_inj_right htexts hstamps)

/-- Every name that is generated at an instant of the calendar has twenty-eight
characters, each of one byte, keeps the rules of session names, and would be
accepted if it were checked.  From 1970 on, names of a later millisecond sort
strictly after those of an earlier one, whatever the random bytes.  At any time
the first twelve characters of a later name sort no earlier, and only names of
the same bytes are equal. -/
theorem generated_valid_and_sorted :
    (∀ i : Instant, i.Shown → ∀ e : Entropy,
      (generate i e).text.length = 28 ∧ (generate i e).text.utf8ByteSize = 28 ∧
        (∀ r ∈ Identifier.rules .sessionName, r.Holds (generate i e).text) ∧
        Identifier.new? .sessionName (generate i e).text = .ok (generate i e)) ∧
      ∀ a b : Instant, a.Shown → b.Shown → ∀ e f : Entropy,
        (0 ≤ a.unixNanos → 0 ≤ b.unixNanos →
          a.unixNanos / 1000000 < b.unixNanos / 1000000 →
          (generate a e).text < (generate b f).text) ∧
        (a ≤ b → head (generate a e) ≤ head (generate b f)) ∧
        (generate a e = generate b f → e.bytes = f.bytes) := by
  refine ⟨fun i hi e => ?_, fun a b ha hb e f =>
    ⟨fun ha0 hb0 hlt => ?_, head_generate_le ha hb,
    bytes_eq_of_generate_eq ha hb⟩⟩
  · have hlength := length_toList_generate hi e
    refine ⟨?_, ?_, (generate i e).holds_of_mem_rules, (generate i e).new?_text⟩
    · rw [← hlength, ← toList_generate, String.length_toList]
    · rw [← hlength, ← Identifier.utf8ByteSize_of_alphabet
        (inAlphabet_name i e)]
      rfl
  · refine generate_lt_generate ha hb ?_
    rw [(millis_eq ha).1, (millis_eq hb).1]
    omega

/-- The last instant of the calendar, by the clock that shows it last. -/
def doomsday : Instant := ⟨253402394398999999999, -93599⟩

/-- Twelve bytes of one value. -/
def uniform (byte : UInt8) : Entropy where
  bytes := List.replicate 12 byte
  length_bytes := List.length_replicate

/-- The first name has the greatest bytes and the second the least. -/
theorem generated_valid_and_sorted_doomsday :
    doomsday.Shown ∧
      Identifier.new? .sessionName (generate doomsday (uniform 0)).text =
        .ok (generate doomsday (uniform 0)) ∧
      (generate Instant.epoch (uniform 255)).text <
        (generate doomsday (uniform 0)).text ∧
      head (generate Instant.epoch (uniform 255)) ≤
        head (generate doomsday (uniform 0)) ∧
      generate doomsday (uniform 1) ≠ generate doomsday (uniform 2) := by
  have hfirst : Instant.epoch.Shown := ⟨by decide, by decide, by decide⟩
  have hlast : doomsday.Shown := ⟨by decide, by decide, by decide⟩
  obtain ⟨hvalid, hpairs⟩ := generated_valid_and_sorted
  obtain ⟨hlt, hle, -⟩ := hpairs _ _ hfirst hlast (uniform 255) (uniform 0)
  obtain ⟨-, -, hbytes⟩ := hpairs _ _ hlast hlast (uniform 1) (uniform 2)
  exact ⟨hlast, (hvalid _ hlast _).2.2.2,
    hlt (by decide) (by decide) (by decide),
    hle (by decide), fun hsame => absurd (hbytes hsame) (by decide)⟩

example : (generate doomsday (uniform 0)).text =
"e677d7b41117AAAAAAAAAAAAAAAA" := by
  decide +kernel

end CloudAccess.SessionName
