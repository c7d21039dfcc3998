import CloudAccess.Text.Digits

/-!
# What the digits tell

* `hexFixed_lt_hexFixed` says that digits of one width are ordered as their
  numbers.
* `base64Url_injective` says that the characters of a coding determine the
  bytes.
-/

namespace CloudAccess.Text

/-- Of two lists of one length, what follows them does not change which is
less. -/
theorem append_lt_append {s t u v : List Char} (hlength : s.length = t.length)
    (h : s < t) : s ++ u < t ++ v := by
  induction s generalizing t with
  | nil =>
    obtain rfl := List.eq_nil_of_length_eq_zero hlength.symm
    exact absurd h (List.lt_irrefl _)
  | cons c s ih =>
    cases t with
    | nil => cases hlength
    | cons d t =>
      rcases List.cons_lt_cons_iff.1 h with hlt | ⟨rfl, hlt⟩
      · exact List.cons_lt_cons_iff.2 (.inl hlt)
      · exact List.cons_lt_cons_iff.2
          (.inr ⟨rfl, ih (by simpa using hlength) hlt⟩)

/-! ## Hexadecimal -/

theorem hexDigit_lt_hexDigit : ∀ n < 16, ∀ m < n, hexDigit m < hexDigit n :=
  by decide

/-- Digits of one width are ordered as the numbers that the width holds. -/
theorem hexFixed_lt_hexFixed {width m n : Nat} (hn : n < Nat.pow 16 width)
    (h : m < n) : hexFixed width m < hexFixed width n := by
  induction width generalizing m n with
  | zero =>
    have hone : Nat.pow 16 0 = 1 := rfl
    omega
  | succ width ih =>
    rw [hexFixed, hexFixed]
    have hpower : Nat.pow 16 (width + 1) = Nat.pow 16 width * 16 := rfl
    -- The leading digits decide, or they agree and the last one does.
    rcases Nat.lt_or_ge (m / 16) (n / 16) with hlead | hlead
    · exact append_lt_append (by simp) (ih (by omega) hlead)
    · have hsame : m / 16 = n / 16 := by omega
      rw [hsame]
      refine List.append_left_lt (List.cons_lt_cons_iff.2 (.inl ?_))
      exact hexDigit_lt_hexDigit _ (Nat.mod_lt _ (by decide)) _ (by omega)

/-! ## Base 64 -/

/-- The six bits for which a character stands. -/
def sextetOf (c : Char) : Nat :=
  if c = '-' then 62
  else if c = '_' then 63
  else if c.isDigit then c.toNat + 4
  else if c.isUpper then c.toNat - 65
  else c.toNat - 71

theorem sextetOf_sextetChar : ∀ n < 64, sextetOf (sextetChar n) = n := by decide

theorem sextetChar_inj {m n : Nat} (hm : m < 64) (hn : n < 64) :
    sextetChar m = sextetChar n ↔ m = n := by
  refine ⟨fun h => ?_, fun h => h ▸ rfl⟩
  rw [← sextetOf_sextetChar m hm, h, sextetOf_sextetChar n hn]

/-- The characters of a coding determine the bytes. -/
theorem base64Url_injective {a b : List UInt8} (h : base64Url a = base64Url b) :
    a = b := by
  have hlength : a.length = b.length := by
    have hsame := congrArg List.length h
    rw [length_base64Url, length_base64Url] at hsame
    omega
  -- The characters of a group are six bits each of one number, and so give its
  -- bytes back.
  induction a using base64Url.induct generalizing b with
  | case1 x y z rest ih =>
    obtain _ | ⟨x', _ | ⟨y', _ | ⟨z', rest'⟩⟩⟩ := b
    · cases hlength
    · cases hlength
    · cases hlength
    · have := x.toNat_lt; have := y.toNat_lt; have := z.toNat_lt
      have := x'.toNat_lt; have := y'.toNat_lt; have := z'.toNat_lt
      simp (disch := omega) only [base64Url, List.cons.injEq, sextetChar_inj]
        at h
      have hx : x = x' := UInt8.toNat_inj.1 (by omega)
      have hy : y = y' := UInt8.toNat_inj.1 (by omega)
      have hz : z = z' := UInt8.toNat_inj.1 (by omega)
      rw [hx, hy, hz, ih h.2.2.2.2 (by simpa using hlength)]
  | case2 x y =>
    obtain ⟨x', rest', rfl⟩ :=
      List.exists_cons_of_length_eq_add_one hlength.symm
    obtain ⟨y', rfl⟩ := List.length_eq_one_iff.1 (Nat.succ_inj.1 hlength.symm)
    have := x.toNat_lt; have := y.toNat_lt
    have := x'.toNat_lt; have := y'.toNat_lt
    simp (disch := omega) only [base64Url, List.cons.injEq, sextetChar_inj] at h
    have hx : x = x' := UInt8.toNat_inj.1 (by omega)
    have hy : y = y' := UInt8.toNat_inj.1 (by omega)
    rw [hx, hy]
  | case3 x =>
    obtain ⟨x', rfl⟩ := List.length_eq_one_iff.1 hlength.symm
    have := x.toNat_lt; have := x'.toNat_lt
    simp (disch := omega) only [base64Url, List.cons.injEq, sextetChar_inj] at h
    have hx : x = x' := UInt8.toNat_inj.1 (by omega)
    rw [hx]
  | case4 => exact (List.eq_nil_of_length_eq_zero hlength.symm).symm

end CloudAccess.Text
