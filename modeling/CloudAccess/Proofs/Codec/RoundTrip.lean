import CloudAccess.Codec.Credential
import CloudAccess.Codec.Listing
import CloudAccess.Codec.Provider
import CloudAccess.Proofs.Codec.Lossless
import CloudAccess.Proofs.Time.Fields

/-!
# Decoding undoes encoding

Every type that is written down as JSON is read back as it was.

* `CredentialSet.Shown` says which expiries there are: those that a clock can
  show.
* Each type has a theorem `lossless`, from those of its parts.
* `decode_undoes_encode` puts them together.
-/

namespace CloudAccess

open Json (Document Fault Key)

/-! ## Strings and variants -/

theorem Secret.lossless : Secret.codec.Lossless fun _ => True :=
  Codec.lossless_ofString (fun _ _ => rfl) fun _ _ _ => trivial

theorem CredentialStatus.lossless :
    CredentialStatus.codec.Lossless fun _ => True :=
  Codec.lossless_ofVariants (fun a => by cases a <;> simp) fun a b h => by
    cases a <;> cases b <;> simp_all [CredentialStatus.name]

theorem BuildError.lossless : BuildError.codec.Lossless fun _ => True :=
  Codec.lossless_ofVariants (fun a => by cases a <;> simp) fun a b h => by
    cases a <;> cases b <;> simp_all [BuildError.name]

theorem Identifier.lossless (kind : IdentifierKind) :
    (Identifier.codec kind).Lossless fun _ => True := by
  refine Codec.lossless_ofString (fun i _ => ?_) fun _ _ _ => trivial
  rw [Identifier.ofString?_eq_new?, i.new?_text]

theorem ArgOption.lossless : ArgOption.codec.Lossless fun _ => True where
  fits o _ := .object (by simp [Json.Fits.string])
  reads o _ :=
    Record.Puts.ofDocument (.cons rfl rfl <| .cons rfl rfl <| .nil _) rfl
  valid _ _ _ := trivial

theorem ResultSet.lossless : ResultSet.codec.Lossless fun _ => True where
  fits s _ := .array fun j hj => by
    obtain ⟨o, -, rfl⟩ := List.mem_map.1 hj
    exact ArgOption.lossless.fits o trivial
  reads s _ := by
    show (Document.readEach ArgOption.codec.ofDocument _ none >>= _) = _
    rw [Document.readEach_documents fun o _ =>
      ArgOption.lossless.reads o trivial]
    rfl
  valid _ _ _ := trivial

theorem PermissionSet.lossless :
    PermissionSet.codec.Lossless fun _ => True where
  fits p _ := .object (by simp [Json.Fits.string, Document.fits_ofOption])
  reads p _ :=
    Record.Puts.ofDocument
      (.cons rfl (Record.fill_none (Document.readOption_string p.name)) <|
        .cons rfl (Record.fill_none
          (Document.readOption_string p.description)) <| .nil _) rfl
  valid _ _ _ := trivial

theorem Tag.lossless : Tag.codec.Lossless fun _ => True where
  fits t _ := .object (by simp [Json.Fits.string, Document.fits_ofOption])
  reads t _ :=
    Record.Puts.ofDocument
      (.cons rfl rfl <|
        .cons rfl (Record.fill_none (Document.readOption_string t.value)) <|
        .nil _) rfl
  valid _ _ _ := trivial

theorem Account.lossless : Account.codec.Lossless fun _ => True where
  fits a _ := .object (by simp [Json.Fits.string, Document.fits_ofOption])
  reads a _ :=
    Record.Puts.ofDocument
      (.cons rfl rfl <|
        .cons rfl (Record.fill_none (Document.readOption_string a.name)) <|
        .nil _) rfl
  valid _ _ _ := trivial

namespace ProviderConfig

theorem lossless : ProviderConfig.codec.Lossless fun _ => True where
  fits c _ := .object (by
    obtain ⟨roleArn, instanceArn, identityStoreId, region⟩ := c
    cases region <;> simp [Json.Fits.string])
  reads c _ := by
    obtain ⟨roleArn, instanceArn, identityStoreId, region⟩ := c
    have hread {kind : IdentifierKind} (i : Identifier kind) :
        (Identifier.codec kind).ofDocument (.string i.text) = .ok i :=
      (Identifier.lossless kind).reads i trivial
    have hrequired {members : List (String × Json)} {p : Places}
        (hrest : record.Puts members ⟨some roleArn, some instanceArn,
          some identityStoreId, none⟩ p) :
        record.Puts (("ssoRoleArn", .string roleArn.text) ::
          ("instanceArn", .string instanceArn.text) ::
          ("identityStoreId", .string identityStoreId.text) :: members) {} p :=
      .cons rfl (Record.fill_none (hread roleArn)) <|
        .cons rfl (Record.fill_none (hread instanceArn)) <|
        .cons rfl (Record.fill_none (hread identityStoreId)) hrest
    cases region with
    | none => exact (hrequired (.nil _)).ofDocument rfl
    | some region => exact (hrequired (.cons rfl rfl (.nil _))).ofDocument rfl
  valid _ _ _ := trivial

end ProviderConfig

namespace Instant

theorem readParts_documents {parts : List Part} {ns : List Int}
    (h : List.Forall₂ (fun part n => part.range.low ≤ n ∧
      n ≤ part.range.high) parts ns)
    (ending : Option Fault) :
    readParts parts (Json.documents (ns.map .number)) ending =
      .ok (ns, []) := by
  induction h with
  | nil => rfl
  | @cons part n parts ns hn _ ih =>
    rw [List.map_cons, Json.documents, readParts]
    show ((if _ then _ else _) >>= _) = _
    rw [if_pos hn, ih]
    rfl

theorem isWhole_of_range {part : Part} {n : Int}
    (hn : part.range.low ≤ n ∧ n ≤ part.range.high) : Json.IsWhole n := by
  unfold Json.IsWhole
  cases part <;> simp only [Part.range] at hn <;> omega

theorem isWhole_of_ranges {parts : List Part} {ns : List Int}
    (h : List.Forall₂ (fun part n => part.range.low ≤ n ∧
      n ≤ part.range.high) parts ns) : ∀ n ∈ ns, Json.IsWhole n := by
  induction h with
  | nil => exact fun n hn => by cases hn
  | cons hn _ ih => exact List.forall_mem_cons.2 ⟨isWhole_of_range hn, ih⟩

/-- The nine numbers of an instant that a clock can show are such as are
read. -/
theorem Shown.ranges {i : Instant} (hi : i.Shown) :
    List.Forall₂ (fun part n => part.range.low ≤ n ∧
      n ≤ part.range.high) Part.all
      i.fields.numbers := by
  obtain ⟨hyear, hordinal, hhour, hminute, hsecond, hnano, hh, hm, hs⟩ :=
    Fields.firstOutOfRange_eq_none_iff.1 hi.firstOutOfRange_fields
  have hleap : Calendar.daysInYear i.fields.year ≤ 366 := by
    unfold Calendar.daysInYear
    split <;> omega
  unfold Span.nanosPerSecond at hnano
  simp only [Part.all, Fields.numbers, Part.range, List.forall₂_cons,
    List.forall₂_nil_left_iff, and_true]
  omega

theorem lossless : Instant.codec.Lossless Shown where
  fits i hi := .array fun j hj => by
    obtain ⟨n, hn, rfl⟩ := List.mem_map.1 hj
    exact .number (isWhole_of_ranges hi.ranges n hn)
  reads i hi := by
    show (readParts Part.all (Json.documents (i.fields.numbers.map .number))
      none >>= _) = _
    have hnumbers : ofNumbers i.fields.numbers = .ok i := by
      simp only [Fields.numbers, ofNumbers]
      rw [show ofFields _ = .ok i from hi.ofFields_fields]
    rw [readParts_documents hi.ranges]
    show (ofNumbers i.fields.numbers >>= _) = _
    rw [hnumbers]
    rfl
  valid d i h := by
    cases d with
    | array items ending =>
      obtain ⟨⟨ns, left⟩, -, h⟩ := exists_ok_of_bind h
      obtain ⟨j, hj, h⟩ := exists_ok_of_bind h
      obtain rfl : i = j := by
        split at h
        · obtain ⟨_, -, h⟩ := exists_ok_of_bind h
          cases h
          rfl
        · cases h
      unfold ofNumbers at hj
      split at hj
      · split at hj
        · cases hj
        · rename_i hfields
          cases hj
          exact shown_of_ofFields hfields
      · cases hj
    | _ => cases h

end Instant

namespace CredentialSet

/-- The expiry of a set, if it has one, is an instant that a clock can show. -/
def Shown (c : CredentialSet) : Prop := ∀ i ∈ c.expiresAt, i.Shown

/-- The expiry that was read, if it was, is an instant that a clock can show. -/
def Places.Shown (p : Places) : Prop := ∀ o ∈ p.expiresAt, ∀ i ∈ o, i.Shown

theorem Places.Shown.putField {name : String} {d : Document} {p q : Places}
    (hp : p.Shown) (h : putField name d p = .ok q) : q.Shown := by
  unfold CredentialSet.putField at h
  split at h <;> obtain ⟨filled, hfilled, h⟩ := exists_ok_of_bind h <;> cases h
  · exact hp
  · exact hp
  · exact hp
  · exact Record.forall_mem_of_fill hfilled fun o ho =>
      Document.valid_of_readOption Instant.lossless.valid ho

theorem Places.Shown.finish {p : Places} {c : CredentialSet} (hp : p.Shown)
    (h : record.finish p = .ok c) : c.Shown := by
  obtain ⟨key, -, h⟩ := exists_ok_of_bind h
  obtain ⟨secret, -, h⟩ := exists_ok_of_bind h
  cases h
  unfold CredentialSet.Shown
  cases hexpires : p.expiresAt with
  | none => exact fun i hi => by cases hi
  | some o => exact hp o hexpires

theorem lossless : CredentialSet.codec.Lossless Shown where
  fits c hc := .object (by
    have hexpires :=
      Document.fits_ofOption fun i hi => Instant.lossless.fits i (hc i hi)
    have htoken (o : Option Secret) :
        (Json.ofOption Secret.codec.toJson o).Fits :=
      Document.fits_ofOption fun a _ => Secret.lossless.fits a trivial
    simp [Json.Fits.string, Secret.lossless.fits, htoken, hexpires])
  reads c hc := by
    obtain ⟨accessKeyId, secretAccessKey, sessionToken, expiresAt⟩ := c
    have htoken := Document.readOption_ofOption (o := sessionToken)
      (fun a _ => Secret.lossless.reads a trivial) fun a ha => by cases ha
    have hexpires :=
      Document.readOption_ofOption
        (fun i hi => Instant.lossless.reads i (hc i hi))
      fun i hi => by cases hi
    have hsecret := Secret.lossless.reads secretAccessKey trivial
    exact Record.Puts.ofDocument
      (.cons rfl rfl <| .cons rfl (Record.fill_none hsecret) <|
        .cons rfl (Record.fill_none htoken) <|
        .cons rfl (Record.fill_none hexpires) <| .nil _) rfl
  valid _ _ :=
    Record.invariant (I := Places.Shown) (by simp [Places.Shown, record])
    (fun _ _ _ _ h hp => hp.putField h) fun _ _ hp h => hp.finish h

end CredentialSet

/-! ## Every type -/

/-- Decoding undoes encoding for every type that is written down: for all values
of most of them, and for credential sets whose expiry is an instant that a clock
can show, at whatever offset. -/
theorem decode_undoes_encode :
    CredentialSet.codec.Inverts (fun c => ∀ i ∈ c.expiresAt, i.Shown) ∧
      Secret.codec.Inverts (fun _ => True) ∧
      CredentialStatus.codec.Inverts (fun _ => True) ∧
      BuildError.codec.Inverts (fun _ => True) ∧
      (∀ kind, (Identifier.codec kind).Inverts fun _ => True) ∧
      ArgOption.codec.Inverts (fun _ => True) ∧
      ResultSet.codec.Inverts (fun _ => True) ∧
      PermissionSet.codec.Inverts (fun _ => True) ∧
      Tag.codec.Inverts (fun _ => True) ∧
      Account.codec.Inverts (fun _ => True) ∧
      ProviderConfig.codec.Inverts (fun _ => True) :=
  ⟨CredentialSet.lossless.inverts, Secret.lossless.inverts,
    CredentialStatus.lossless.inverts,
    BuildError.lossless.inverts, fun kind => (Identifier.lossless kind).inverts,
    ArgOption.lossless.inverts, ResultSet.lossless.inverts,
    PermissionSet.lossless.inverts,
    Tag.lossless.inverts, Account.lossless.inverts,
    ProviderConfig.lossless.inverts⟩

/-- An instant just before the year 0, by a clock with an offset of less than an
hour. -/
def ancient : Instant := ⟨-62167219200000000001, -1830⟩

theorem shown_ancient : ancient.Shown :=
  (Instant.ofParts?_eq_some_iff.1
    (show Instant.ofParts? (-62167219201) 999999999 (-1830) =
      some ancient by decide)).2.2.2.1

/-- A set whose keys hold a quote, a backslash and control characters, and which
expired then. -/
def ancientSet : CredentialSet := ⟨"\"k\\\x01", ⟨"é\n"⟩, none, some ancient⟩

/-- A tag with its fields the other way round, blanks between them, and a letter
that need not be escaped. -/
def looseTag : String := "\x7b \"value\":null, \"key\":\"\\u0041\" \x7d"

/-- The name of a role with a quote in it. -/
def quotedRole : RoleArn := ⟨"arn:ro\"le", by decide +kernel⟩

theorem decode_undoes_encode_ancient :
    (∀ i ∈ ancientSet.expiresAt, i.Shown) ∧
      CredentialSet.codec.decode (CredentialSet.codec.encode ancientSet) =
        .ok ancientSet ∧
      Tag.codec.decode looseTag = .ok ⟨"A", none⟩ ∧
      Tag.codec.decode (Tag.codec.encode ⟨"A", none⟩) = .ok ⟨"A", none⟩ ∧
      (Identifier.codec .roleArn).decode
          ((Identifier.codec .roleArn).encode quotedRole) =
        .ok quotedRole := by
  have hshown : ∀ i ∈ ancientSet.expiresAt, i.Shown := by
    intro i hi
    cases hi
    exact shown_ancient
  have htag : Tag.codec.decode looseTag = .ok ⟨"A", none⟩ := by
    have hvalue : (Tag.codec.decode looseTag).toOption = some ⟨"A", none⟩ := by
      decide +kernel
    generalize Tag.codec.decode looseTag = decoded at hvalue ⊢
    cases decoded <;> cases hvalue
    rfl
  obtain ⟨hset, -, -, -, hidentifier, -, -, -, htags, -⟩ := decode_undoes_encode
  exact ⟨hshown, hset.1 _ hshown, htag, (htags.2 _ _ htag).1,
    (hidentifier .roleArn).1 _ trivial⟩

example :
    CredentialSet.codec.encode
        ⟨"\"k\\\x01", ⟨"é\n"⟩, none, some ⟨-62167219200000000001, -1830⟩⟩ =
      "\x7b\"access_key_id\":\"\\\"k\\\\\\u0001\",\"secret_access_key\":\"é\\n\"," ++
        "\"session_token\":null," ++
        "\"expires_at\":[-1,365,23,29,29,999999999,0,-30,-30]\x7d" := by
  decide +kernel

end CloudAccess
