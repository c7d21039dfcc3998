import CloudAccess.Proofs.Json.Scalars

/-!
# Reading follows the grammar

A text is read as the tree that it holds, and read without a fault only if it
holds one.

* `Grammar.Value.readValue_eq` says that every value is found, by induction on
  how the grammar derives it, and `Grammar.Text.read_eq` that every text is
  read.
* `Exact` says that what a reader finds is derived by the grammar, whatever its
  fuel; `exact` proves it by induction on the fuel, one lemma for each of the
  four readers.
* `exists_text_iff` puts both together: the texts of the grammar are those that
  are read without a fault.
-/

namespace CloudAccess.Json

open Grammar

/-! ## Values -/

/-- A value of the grammar starts neither with a space nor with the end of an
array. -/
theorem Grammar.Value.begins {t : Tree} {cs rest : List Char}
    (h : Value t cs rest) : Begins cs := by
  cases h with
  | number h =>
    obtain ⟨c, cs₁, rfl, hstarts⟩ := h.starts
    exact ⟨c, cs₁, rfl, hstarts.isSpace, hstarts.ne (by decide)⟩
  | _ => exact ⟨_, _, rfl, by decide, by decide⟩

theorem Grammar.Element.begins {t : Tree} {cs rest : List Char}
    (h : Element t cs rest) : Begins (skipSpaces cs) := by
  cases h with
  | mk hbefore h =>
    rw [hbefore.skipSpaces_eq, h.begins.skipSpaces_eq]
    exact h.begins

theorem Grammar.Elements.begins {items : List Tree} {cs rest : List Char}
    (h : Elements items cs rest) : Begins (skipSpaces cs) := by
  cases h with
  | last h | next h => exact h.begins

theorem Grammar.Members.begins {members : List (List Piece × Tree)}
    {cs rest : List Char} (h : Members members cs rest) :
    ∃ cs₁, skipSpaces cs = '"' :: cs₁ := by
  cases h with
  | last h | next h =>
    cases h with
    | mk hbefore => exact ⟨_, hbefore.skipSpaces_eq_cons rfl⟩

theorem skipSpaces_skipSpaces (cs : List Char) :
    skipSpaces (skipSpaces cs) = skipSpaces cs :=
  (spaces_skipSpaces cs).skipSpaces_eq.symm

theorem readValue_skipSpaces (fuel : Nat) (cs : List Char) :
    readValue fuel (skipSpaces cs) = readValue fuel cs := by
  cases fuel with
  | zero => rfl
  | succ fuel => rw [readValue, readValue, skipSpaces_skipSpaces]

theorem readItems_skipSpaces (fuel : Nat) (cs : List Char) :
    readItems fuel (skipSpaces cs) = readItems fuel cs := by
  cases fuel with
  | zero => rfl
  | succ fuel => rw [readItems, readItems, skipSpaces_skipSpaces]

theorem readMembers_skipSpaces (fuel : Nat) (cs : List Char) :
    readMembers fuel (skipSpaces cs) = readMembers fuel cs := by
  cases fuel with
  | zero => rfl
  | succ fuel => rw [readMembers, readMembers, skipSpaces_skipSpaces]

/-- An array that does not close at once holds items. -/
theorem readValue_array {fuel : Nat} {cs : List Char}
    (hsome : skipSpaces cs ≠ []) (hopen : ∀ rest, skipSpaces cs ≠ ']' :: rest) :
    readValue (fuel + 1) ('[' :: cs) =
      (.array (readItems fuel cs).1 (readItems fuel cs).2.1,
        (readItems fuel cs).2.2) := by
  rw [readValue, skipSpaces_cons (by rfl), ← readItems_skipSpaces fuel cs]
  simp only [if_true]

/-- An object that does not close at once holds members. -/
theorem readValue_object {fuel : Nat} {cs : List Char}
    (hsome : skipSpaces cs ≠ [])
    (hopen : ∀ rest, skipSpaces cs ≠ '\x7d' :: rest) :
    readValue (fuel + 1) ('\x7b' :: cs) =
      (.object (readMembers fuel cs).1 (readMembers fuel cs).2.1,
        (readMembers fuel cs).2.2) := by
  rw [readValue, skipSpaces_cons (by rfl), ← readMembers_skipSpaces fuel cs]
  simp only [if_true, if_neg (show ¬ '\x7b' = '[' by decide)]

/-- The name of a member is read up to its end. -/
theorem readMembers_quote {fuel : Nat} {cs cs₁ cs₂ : List Char}
    {name : List Piece} (hcs : skipSpaces cs = '"' :: cs₁)
    (hname : Characters name cs₁ cs₂) :
    readMembers (fuel + 1) cs = readMember fuel (pieceKey name) cs₂ := by
  rw [readMembers, hcs]
  simp only [readString_of_characters hname, stringReading, pieceKey]
  cases assemble name <;> rfl

theorem readStringValue_of_characters {pieces : List Piece}
    {cs rest : List Char} (h : Characters pieces cs rest) :
    readStringValue cs = (pieceDocument pieces, some rest) := by
  rw [readStringValue, readString_of_characters h]
  unfold stringReading pieceDocument
  cases assemble pieces <;> rfl

theorem ends_cons {c : Char} (hc : c = ',' ∨ c = ']' ∨ c = '\x7d')
    (rest : List Char) : Ends (c :: rest) := by
  intro c' hc'
  cases hc'
  exact .inr hc

mutual

/-- A value of the grammar is read as what it stands for. -/
theorem Grammar.Value.readValue_eq {t : Tree} {cs rest : List Char} {fuel : Nat}
    (h : Value t cs rest) (hrest : Ends rest)
    (hfuel : cs.length ≤ fuel + rest.length) :
    readValue fuel cs = (t.document, some rest) := by
  obtain ⟨fuel, rfl⟩ : ∃ f, fuel = f + 1 :=
    ⟨fuel - 1, by have := h.length_lt; omega⟩
  match h with
  | .null | .true | .false =>
    exact readValue_scalar fuel _ (by decide) (by decide) (by decide)
  | .number h =>
    obtain ⟨c, cs, rfl, hstarts⟩ := h.starts
    rw [readValue_scalar fuel _ hstarts.isSpace (hstarts.ne (by decide))
      (hstarts.ne (by decide)), readScalar_number hstarts,
      readNumber_of_number h hrest]
    rfl
  | .string h =>
    rw [readValue_scalar fuel _ (by decide) (by decide) (by decide)]
    exact readStringValue_of_characters h
  | .emptyArray h =>
    rw [readValue, skipSpaces_cons (by rfl)]
    simp [h.skipSpaces_eq_cons, isSpace, Tree.document, Tree.documents]
  | .array h =>
    obtain ⟨c, cs₁, hcs, -, hne⟩ := h.begins
    rw [List.length_cons] at hfuel
    have hitems : readItems fuel _ = _ := h.readItems_eq (ends_cons (by simp) _)
      (skipSpaces_cons rfl) (by rw [List.length_cons]; omega)
    rw [readValue_array (by simp [hcs]) (by simp [hcs, hne]), hitems]
    rfl
  | .emptyObject h =>
    rw [readValue, skipSpaces_cons (by rfl)]
    simp [h.skipSpaces_eq_cons, isSpace, Tree.document, Tree.memberDocuments]
  | .object h =>
    obtain ⟨cs₁, hcs⟩ := h.begins
    rw [List.length_cons] at hfuel
    have hmembers : readMembers fuel _ = _ :=
      h.readMembers_eq (ends_cons (by simp) _)
      (skipSpaces_cons rfl) (by rw [List.length_cons]; omega)
    rw [readValue_object (by simp [hcs]) (by simp [hcs]), hmembers]
    rfl

theorem Grammar.Element.readValue_eq {t : Tree} {cs rest : List Char}
    {fuel : Nat} :
    Element t cs rest → Ends rest → cs.length ≤ fuel + rest.length →
      ∃ after, readValue fuel (skipSpaces cs) = (t.document, some after) ∧
        skipSpaces after = skipSpaces rest
  | .mk hbefore h hafter, hrest, hfuel => by
    have hbound := hbefore.length_le
    have hspaces := hafter.length_le
    refine ⟨_, ?_, hafter.skipSpaces_eq⟩
    rw [hbefore.skipSpaces_eq, readValue_skipSpaces]
    exact h.readValue_eq (hafter.ends hrest) (by omega)

theorem Grammar.Elements.readItems_eq {items : List Tree}
    {cs cs₁ rest : List Char} {fuel : Nat} :
    Elements items cs cs₁ → Ends cs₁ → skipSpaces cs₁ = ']' :: rest →
      cs.length < fuel + cs₁.length →
        readItems fuel cs = (Tree.documents items, none, some rest)
  | .last h, hends, hclose, hfuel => by
    have hlt := h.length_lt
    obtain ⟨fuel, rfl⟩ : ∃ f, fuel = f + 1 := ⟨fuel - 1, by omega⟩
    obtain ⟨after, hread, hafter⟩ :=
      h.readValue_eq hends (show _ ≤ fuel + _ by omega)
    exact readItems_last rfl h.begins hread (hafter.trans hclose)
  | .next h hmore, hends, hclose, hfuel => by
    have hlt := h.length_lt
    have hmorelt := hmore.length_lt
    rw [List.length_cons] at hlt
    obtain ⟨fuel, rfl⟩ : ∃ f, fuel = f + 1 := ⟨fuel - 1, by omega⟩
    obtain ⟨after, hread, hafter⟩ := h.readValue_eq (ends_cons (by simp) _)
      (show _ ≤ fuel + _ by rw [List.length_cons]; omega)
    exact readItems_next rfl h.begins hread (hafter.trans (skipSpaces_cons rfl))
      (hmore.readItems_eq hends hclose (by omega))

theorem Grammar.Member.readMembers_eq {m : List Piece × Tree}
    {cs rest : List Char} {fuel : Nat} :
    Member m cs rest → Ends rest → cs.length ≤ fuel + 2 + rest.length →
      ∃ cs₂ cs₃ after,
        readMembers (fuel + 2) cs =
          readMember (fuel + 1) (pieceKey m.1) cs₂ ∧
        skipSpaces cs₂ = ':' :: cs₃ ∧
        readValue fuel cs₃ = (m.2.document, some after) ∧
        skipSpaces after = skipSpaces rest
  | .mk hbefore hname hafter h, hrest, hfuel => by
    have hspaces := hbefore.length_le
    have hchars := hname.length_lt
    have hcolon := hafter.length_le
    rw [List.length_cons] at hspaces hcolon
    obtain ⟨after, hread, hskip⟩ :=
      h.readValue_eq hrest (show _ ≤ fuel + _ by omega)
    rw [readValue_skipSpaces] at hread
    exact ⟨_, _, after, readMembers_quote
      (hbefore.skipSpaces_eq_cons rfl) hname,
      hafter.skipSpaces_eq_cons rfl, hread, hskip⟩

theorem Grammar.Members.readMembers_eq {members : List (List Piece × Tree)}
    {cs cs₁ rest : List Char} {fuel : Nat} :
    Members members cs cs₁ → Ends cs₁ → skipSpaces cs₁ = '\x7d' :: rest →
      cs.length < fuel + cs₁.length →
      readMembers fuel cs = (Tree.memberDocuments members, none, some rest)
  | .last h, hends, hclose, hfuel => by
    have hadd := h.length_add_le
    obtain ⟨fuel, rfl⟩ : ∃ f, fuel = f + 2 := ⟨fuel - 2, by omega⟩
    obtain ⟨cs₂, cs₃, after, heq, hcolon, hread, hafter⟩ :=
      h.readMembers_eq hends (show _ ≤ fuel + 2 + _ by omega)
    rw [heq]
    exact readMember_last hcolon hread (hafter.trans hclose)
  | .next h hmore, hends, hclose, hfuel => by
    have hadd := h.length_add_le
    have hmorelt := hmore.length_lt
    rw [List.length_cons] at hadd
    obtain ⟨fuel, rfl⟩ : ∃ f, fuel = f + 2 := ⟨fuel - 2, by omega⟩
    obtain ⟨cs₂, cs₃, after, heq, hcolon, hread, hafter⟩ :=
      h.readMembers_eq (ends_cons (by simp) _)
        (show _ ≤ fuel + 2 + _ by rw [List.length_cons]; omega)
    rw [heq]
    exact readMember_next hcolon hread (hafter.trans (skipSpaces_cons rfl))
      (hmore.readMembers_eq hends hclose (by omega))

end

/-! ## What is found is JSON -/

theorem finds_readKeyword (d : Document) (keyword cs : List Char) :
    Finds (fun doc rest => cs = keyword ++ rest ∧ doc = d)
      (readKeyword d keyword cs) := by
  induction keyword generalizing cs with
  | nil => exact .found ⟨rfl, rfl⟩
  | cons k keyword ih =>
    cases cs with
    | nil => exact finds_brokenReading _
    | cons c cs =>
      rw [readKeyword]
      split
      · rename_i heq
        subst heq
        exact (ih cs).mono fun doc rest h => ⟨by rw [h.1]; rfl, h.2⟩
      · exact finds_brokenReading _

theorem finds_readStringValue (cs : List Char) :
    Finds (fun doc rest => ∃ pieces, Characters pieces cs rest ∧
      doc = pieceDocument pieces)
      (readStringValue cs) := by
  rcases readString_cases cs with
    ⟨pieces, rest, h, -⟩ | ⟨reading, passing, hcut⟩
  · rw [readStringValue_of_characters h]
    exact .found ⟨pieces, h, rfl⟩
  · rw [readStringValue, hcut]
    exact .broken fun h => by cases h

theorem finds_readScalar (c : Char) (cs : List Char) :
    Finds (fun doc rest => ∃ t, Value t (c :: cs) rest ∧ doc = t.document)
      (readScalar c cs) := by
  unfold readScalar
  split_ifs with hquote hn ht hf hnumber
  · subst c
    refine (finds_readStringValue cs).mono ?_
    rintro doc rest ⟨pieces, h, rfl⟩
    exact ⟨_, .string h, rfl⟩
  · subst c
    refine (finds_readKeyword _ _ cs).mono ?_
    rintro doc rest ⟨rfl, rfl⟩
    exact ⟨_, .null, rfl⟩
  · subst c
    refine (finds_readKeyword _ _ cs).mono ?_
    rintro doc rest ⟨rfl, rfl⟩
    exact ⟨_, .true, rfl⟩
  · subst c
    refine (finds_readKeyword _ _ cs).mono ?_
    rintro doc rest ⟨rfl, rfl⟩
    exact ⟨_, .false, rfl⟩
  · refine (finds_readNumber (c :: cs)).mono ?_
    rintro doc rest ⟨d, h, rfl⟩
    exact ⟨_, .number h, rfl⟩
  · exact finds_brokenReading _

/-- The items of an array are found up to its end, or the text stops being
JSON. -/
inductive FindsItems (cs : List Char) :
    List Document × Option Fault × Option (List Char) → Prop
  | found {items : List Tree} {rest : List Char}
      (h : Elements items cs (']' :: rest)) :
      FindsItems cs (Tree.documents items, none, some rest)
  | broken {items : List Document} {ending : Option Fault}
      (h : Document.passingItems items ending ≠ none) :
      FindsItems cs (items, ending, none)

/-- The members of an object are found up to its end, or the text stops being
JSON. -/
inductive FindsMembers (cs : List Char) :
    List (Key × Document) × Option Fault × Option (List Char) → Prop
  | found {members : List (List Piece × Tree)} {rest : List Char}
      (h : Members members cs ('\x7d' :: rest)) :
      FindsMembers cs (Tree.memberDocuments members, none, some rest)
  | broken {members : List (Key × Document)} {ending : Option Fault}
      (h : Document.passingMembers members ending ≠ none) :
      FindsMembers cs (members, ending, none)

/-- The readers find what the grammar says, or the text stops being JSON, with
whatever fuel. -/
structure Exact (fuel : Nat) : Prop where
  value : ∀ cs, Finds (fun d rest => ∃ t cs₁, Spaces cs cs₁ ∧ Value t cs₁ rest ∧
    d = t.document) (readValue fuel cs)
  items : ∀ cs, FindsItems cs (readItems fuel cs)
  members : ∀ cs, FindsMembers cs (readMembers fuel cs)
  member : ∀ name cs cs₁ cs₂, Spaces cs ('"' :: cs₁) → Characters name cs₁ cs₂ →
    FindsMembers cs (readMember fuel (pieceKey name) cs₂)

section Exact

variable {fuel : Nat}

theorem Exact.value_succ (ih : Exact fuel) (cs : List Char) :
    Finds (fun d rest => ∃ t cs₁, Spaces cs cs₁ ∧ Value t cs₁ rest ∧
      d = t.document)
      (readValue (fuel + 1) cs) := by
  have hspaces := spaces_skipSpaces cs
  rw [readValue]
  split
  · exact .broken fun h => by cases h
  · rename_i c rest hcs
    rw [hcs] at hspaces
    split_ifs with harray hobject
    · subst c
      have hinner := spaces_skipSpaces rest
      split
      · exact .broken fun h => by cases h
      · rename_i after hclose
        rw [hclose] at hinner
        exact .found ⟨_, _, hspaces, .emptyArray hinner, rfl⟩
      · have hitems := ih.items rest
        rw [readItems_skipSpaces]
        generalize readItems fuel rest = found at hitems ⊢
        cases hitems with
        | found h => exact .found ⟨_, _, hspaces, .array h, rfl⟩
        | broken h => exact .broken h
    · subst c
      have hinner := spaces_skipSpaces rest
      split
      · exact .broken fun h => by cases h
      · rename_i after hclose
        rw [hclose] at hinner
        exact .found ⟨_, _, hspaces, .emptyObject hinner, rfl⟩
      · have hmembers := ih.members rest
        rw [readMembers_skipSpaces]
        generalize readMembers fuel rest = found at hmembers ⊢
        cases hmembers with
        | found h => exact .found ⟨_, _, hspaces, .object h, rfl⟩
        | broken h => exact .broken h
    · refine (finds_readScalar c rest).mono ?_
      rintro doc after ⟨t, h, rfl⟩
      exact ⟨t, _, hspaces, h, rfl⟩

theorem Exact.items_succ (ih : Exact fuel) (cs : List Char) :
    FindsItems cs (readItems (fuel + 1) cs) := by
  rw [readItems]
  split
  · exact .broken fun h => by cases h
  · rw [readValue_skipSpaces]
    have hvalue := ih.value cs
    generalize readValue fuel cs = found at hvalue ⊢
    cases hvalue with
    | @broken d h =>
      refine .broken ?_
      rw [Document.passingItems]
      cases hpassing : d.passing with
      | none => exact absurd hpassing h
      | some f => exact fun h => by cases h
    | @found d rest h =>
      obtain ⟨t, cs₁, hbefore, h, rfl⟩ := h
      have hafter := spaces_skipSpaces rest
      have hpassing := t.passing_document
      simp only
      split
      · exact .broken (by simp [Document.passingItems, hpassing])
      · rename_i hclose
        rw [hclose] at hafter
        exact .found (.last (.mk hbefore h hafter))
      · rename_i more hcomma
        rw [hcomma] at hafter
        have hitems := ih.items more
        generalize readItems fuel more = found at hitems ⊢
        cases hitems with
        | found hmore => exact .found (.next (.mk hbefore h hafter) hmore)
        | broken hmore =>
          exact .broken (by simpa [Document.passingItems, hpassing] using hmore)
      · exact .broken (by simp [Document.passingItems, hpassing])

theorem Exact.members_succ (ih : Exact fuel) (cs : List Char) :
    FindsMembers cs (readMembers (fuel + 1) cs) := by
  have hspaces := spaces_skipSpaces cs
  rw [readMembers]
  split
  · exact .broken fun h => by cases h
  · rename_i rest hquote
    rw [hquote] at hspaces
    rcases readString_cases rest with
      ⟨name, after, hname, hread⟩ | ⟨reading, passing, hcut⟩
    · have hmember := ih.member name cs rest after hspaces hname
      rw [hread, stringReading]
      unfold pieceKey at hmember
      cases hassemble : assemble name <;> simpa [hassemble] using hmember
    · rw [hcut]
      exact .broken fun h => by cases h
  · exact .broken fun h => by cases h

theorem Exact.member_succ (ih : Exact fuel) {name : List Piece}
    {cs cs₁ cs₂ : List Char} (hbefore : Spaces cs ('"' :: cs₁))
    (hname : Characters name cs₁ cs₂) :
    FindsMembers cs (readMember (fuel + 1) (pieceKey name) cs₂) := by
  have hkey := Tree.passing_pieceKey name
  have hspaces := spaces_skipSpaces cs₂
  rw [readMember]
  split
  · exact .broken (by simp [Document.passingMembers, hkey, Document.broken,
      Document.passing])
  · rename_i cs₃ hcolon
    rw [hcolon] at hspaces
    have hvalue := ih.value cs₃
    generalize readValue fuel cs₃ = found at hvalue ⊢
    cases hvalue with
    | @broken d h =>
      refine .broken ?_
      rw [Document.passingMembers, hkey]
      cases hpassing : d.passing with
      | none => exact absurd hpassing h
      | some f => exact fun h => by cases h
    | @found d rest h =>
      obtain ⟨t, cs₄, hvalue, h, rfl⟩ := h
      have hafter := spaces_skipSpaces rest
      have hpassing := t.passing_document
      simp only
      split
      · exact .broken (by simp [Document.passingMembers, hkey, hpassing])
      · rename_i hclose
        rw [hclose] at hafter
        exact .found (.last (.mk hbefore hname hspaces (.mk hvalue h hafter)))
      · rename_i more hcomma
        rw [hcomma] at hafter
        have hmembers := ih.members more
        generalize readMembers fuel more = found at hmembers ⊢
        cases hmembers with
        | found hmore =>
          exact .found (.next (.mk hbefore hname hspaces (.mk hvalue h hafter))
            hmore)
        | broken hmore =>
          exact .broken (by simpa [Document.passingMembers, hkey,
            hpassing] using hmore)
      · exact .broken (by simp [Document.passingMembers, hkey, hpassing])
  · exact .broken (by simp [Document.passingMembers, hkey, Document.broken,
      Document.passing])

end Exact

theorem exact (fuel : Nat) : Exact fuel := by
  induction fuel with
  | zero =>
    have hbroken {f : Fault} : some f ≠ none := Option.some_ne_none f
    refine ⟨fun _ => .broken hbroken, fun _ => .broken hbroken, fun _ =>
      .broken hbroken, fun name _ _ _ _ _ => .broken ?_⟩
    simp [Document.passingMembers, Tree.passing_pieceKey, Document.broken,
      Document.passing]
  | succ fuel ih =>
    exact ⟨ih.value_succ, ih.items_succ, ih.members_succ, fun _ _ _ _ =>
      ih.member_succ⟩

/-! ## Whole texts -/

/-- A text of the grammar is read as the tree that it holds, and nothing follows
it. -/
theorem Grammar.Text.read_eq {text : String} {t : Tree} (h : Text text t) :
    read text = ⟨t.document, false⟩ := by
  have hends : Ends [] := fun c hc => by cases hc
  obtain ⟨after, hread, hafter⟩ := Element.readValue_eq h hends
    (show text.toList.length ≤ (2 * text.toList.length + 1) + 0 by omega)
  rw [readValue_skipSpaces] at hread
  simp only [read, hread, hafter]
  rfl

/-- A text that is read without a fault is one of the grammar. -/
theorem exists_text_of_read {text : String}
    (hpassing : (read text).document.passing = none)
    (htrailing : (read text).trailing = false) :
    ∃ t, Text text t ∧ (read text).document = t.document := by
  have hvalue := (exact (2 * text.toList.length + 1)).value text.toList
  unfold read at hpassing htrailing ⊢
  simp only at hpassing htrailing ⊢
  generalize readValue _ _ = found at hvalue hpassing htrailing ⊢
  cases hvalue with
  | broken h => exact absurd hpassing h
  | @found d rest h =>
    obtain ⟨t, cs₁, hbefore, h, rfl⟩ := h
    have hafter := spaces_skipSpaces rest
    have hend : skipSpaces rest = [] := by simpa using htrailing
    rw [hend] at hafter
    exact ⟨t, .mk hbefore h hafter, rfl⟩

/-- The texts of the grammar are those that are read without a fault. -/
theorem exists_text_iff {text : String} :
    (∃ t, Text text t) ↔
      (read text).document.passing = none ∧ (read text).trailing = false := by
  constructor
  · rintro ⟨t, h⟩
    rw [h.read_eq]
    exact ⟨t.passing_document, rfl⟩
  · rintro ⟨hpassing, htrailing⟩
    obtain ⟨t, h, -⟩ := exists_text_of_read hpassing htrailing
    exact ⟨t, h⟩

end CloudAccess.Json
