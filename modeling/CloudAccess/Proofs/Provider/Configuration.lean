import CloudAccess.Codec.Provider
import CloudAccess.Proofs.Codec.Members
import CloudAccess.Proofs.Json.Reading

/-!
# Which configuration documents are accepted

A document is looked at as the members of its object, with every name as often
and in the order in which it stands in the text.

* `Acceptable` says what the keys of the document have to hold, after the fields
  that an operator is asked for; `Tree.Legible` says that the name of every
  member is a text.
* `Describes` joins an object to the configuration it describes.
  `ofText_eq_ok_iff` says that this configuration is read, and `acceptable_iff`
  that acceptable objects are those that describe one.
* `accepted_exactly` is about every text: legible and acceptable objects are
  read, as the strings that their keys hold and whatever the order of the
  members, and everything else is refused.
* `unpaired_name_refused` shows that an object has to be legible, where a member
  with the name of no key counts too.
-/

namespace CloudAccess

open Json (Document Key Fault Piece Tree)
open Json.Grammar (Says Text)

/-! ## Members by their names -/

namespace Json

theorem Document.passing_of_readOption {α : Type}
    {read : Document → Except DecodeError α}
    (hread : ∀ d a, read d = .ok a → d.passing = none) {d : Document}
    {o : Option α} (h : d.readOption read = .ok o) : d.passing = none := by
  unfold Document.readOption at h
  split at h
  · rfl
  · cases hd : read _ with
    | error e =>
      rw [hd] at h
      cases h
    | ok a => exact hread _ _ hd

theorem Document.passing_of_readString {d : Document} {s : String}
    (h : d.readString = .ok s) : d.passing = none := by
  cases d with
  | string => rfl
  | _ => cases h

instance (pieces : List Piece) (cs : List Char) : Decidable (Says pieces cs) :=
  decidable_of_iff _ assemble_eq_some_iff

instance (pieces : List Piece) : Decidable (∃ cs, Says pieces cs) :=
  decidable_of_iff ((assemble pieces).isSome = true) (by
    simp only [Option.isSome_iff_exists, assemble_eq_some_iff])

theorem ofList_eq_iff {cs : List Char} {s : String} :
    String.ofList cs = s ↔ cs = s.toList :=
  ⟨fun h => by rw [← h, String.toList_ofList], fun h => by rw [h,
    String.ofList_toList]⟩

theorem pieceKey_eq_name_iff {pieces : List Piece} {name : String} :
    pieceKey pieces = .name name ↔ Says pieces name.toList := by
  rw [← assemble_eq_some_iff]
  unfold pieceKey
  cases assemble pieces with
  | none => simp
  | some cs => simp [ofList_eq_iff]

namespace Tree

variable {members : List (List Piece × Tree)} {name s : String} {t : Tree}

/-- The values of the members with a name, in their order. -/
def valuesOf (name : String) (members : List (List Piece × Tree)) : List Tree :=
  members.filterMap fun m => if Says m.1 name.toList then some m.2 else none

/-- A name occurs once, with a string. -/
def Holds (members : List (List Piece × Tree)) (name s : String) : Prop :=
  ∃ pieces, valuesOf name members = [.string pieces] ∧ Says pieces s.toList

/-- The name of every member is a text. -/
def Legible (members : List (List Piece × Tree)) : Prop :=
  ∀ m ∈ members, ∃ cs, Says m.1 cs

instance (members : List (List Piece × Tree)) : Decidable (Legible members) :=
  inferInstanceAs (Decidable (∀ m ∈ members, ∃ cs, Says m.1 cs))

theorem Holds.unique {s' : String} (h : Holds members name s)
    (h' : Holds members name s') : s = s' := by
  obtain ⟨pieces, hvalues, hs⟩ := h
  obtain ⟨pieces', hvalues', hs'⟩ := h'
  rw [hvalues] at hvalues'
  cases hvalues'
  rw [← assemble_eq_some_iff] at hs hs'
  rw [hs] at hs'
  exact String.toList_inj.1 (Option.some.inj hs')

theorem Holds.of_perm {members' : List (List Piece × Tree)}
    (h : Holds members name s)
    (hperm : (valuesOf name members).Perm (valuesOf name members')) :
    Holds members' name s := by
  obtain ⟨pieces, hvalues, hs⟩ := h
  rw [hvalues] at hperm
  exact ⟨pieces, (List.singleton_perm.1 hperm).symm, hs⟩

theorem memberDocuments_eq_map (members : List (List Piece × Tree)) :
    memberDocuments members = members.map fun m =>
      (pieceKey m.1, m.2.document) := by
  induction members with
  | nil => rfl
  | cons m members ih => rw [List.map_cons, ← ih, memberDocuments]

theorem valuesAt_memberDocuments (name : String)
    (members : List (List Piece × Tree)) :
    Record.valuesAt name (memberDocuments members) =
      (valuesOf name members).map document := by
  induction members with
  | nil => rfl
  | cons m members ih =>
    obtain ⟨pieces, t⟩ := m
    unfold Record.valuesAt valuesOf at ih ⊢
    by_cases h : Says pieces name.toList
    · simp [memberDocuments, pieceKey_eq_name_iff, h, ih]
    · simp [memberDocuments, pieceKey_eq_name_iff, h, ih]

theorem readString_document_iff :
    t.document.readString = .ok s ↔ ∃ pieces, t = .string pieces ∧
      Says pieces s.toList := by
  cases t with
  | string pieces =>
    rw [document, pieceDocument]
    simp only [Tree.string.injEq, exists_eq_left', ← assemble_eq_some_iff]
    cases assemble pieces with
    | none => simp [Document.readString]
    | some cs => simp [Document.readString, ofList_eq_iff]
  | number d =>
    rw [document, Digits.document]
    cases Numeral.ofDigits? d <;> simp [Document.readString]
  | _ => simp [document, Document.readString]

theorem document_eq_null_iff : t.document = .null ↔ t = .null := by
  cases t with
  | number d =>
    rw [document, Digits.document]
    cases Numeral.ofDigits? d <;> simp
  | string pieces =>
    rw [document, pieceDocument]
    cases assemble pieces <;> simp
  | _ => simp [document]

theorem readOption_document_iff {o : Option String} :
    t.document.readOption Document.readString = .ok o ↔
      t = .null ∧ o = none ∨ ∃ s, t.document.readString = .ok s ∧
        o = some s := by
  rw [← document_eq_null_iff]
  generalize t.document = d
  unfold Document.readOption
  split
  · simp [Document.readString, eq_comm]
  · rename_i hne
    have hsome : d ≠ .null := hne
    cases Document.readString d <;> simp [hsome, Except.map, eq_comm]

end Tree

end Json

namespace ProviderConfig

/-! ## What members do to a configuration -/

/-- What the members of an object do to the places of a configuration. -/
structure Places.Filled (members : List (Key × Document)) (p q : Places) :
    Prop where
  roleArn : Record.Fills (Identifier.codec .roleArn).ofDocument
    (Record.valuesAt "ssoRoleArn" members) p.roleArn q.roleArn
  instanceArn : Record.Fills (Identifier.codec .instanceArn).ofDocument
    (Record.valuesAt "instanceArn" members) p.instanceArn q.instanceArn
  identityStoreId : Record.Fills (Identifier.codec .identityStore).ofDocument
    (Record.valuesAt "identityStoreId" members) p.identityStoreId
      q.identityStoreId
  region : Record.Fills (Document.readOption Document.readString)
    (Record.valuesAt "region" members) p.region q.region

theorem Places.filled_nil_iff {p q : Places} : p.Filled [] q ↔ p = q := by
  constructor
  · rintro ⟨hrole, hinstance, hstore, hregion⟩
    obtain ⟨roleArn, instanceArn, identityStoreId, region⟩ := p
    obtain ⟨roleArn', instanceArn', identityStoreId', region'⟩ := q
    cases hrole
    cases hinstance
    cases hstore
    cases hregion
    rfl
  · rintro rfl
    exact ⟨.stays _, .stays _, .stays _, .stays _⟩

/-- A member with the name of a field fills the place of the field, which must
be empty. -/
theorem Places.filled_cons_iff {name : String} {d : Document}
    {members : List (Key × Document)} {p q : Places}
    (hname : name ∈ record.fields) :
    p.Filled ((.name name, d) :: members) q ↔
      ∃ next, putField name d p = .ok next ∧ next.Filled members q := by
  have hcases : name = "ssoRoleArn" ∨ name = "instanceArn" ∨
      name = "identityStoreId" ∨
      name = "region" := by simpa [record] using hname
  constructor
  · rintro ⟨hrole, hinstance, hstore, hregion⟩
    simp only [Record.valuesAt_cons] at hrole hinstance hstore hregion
    rcases hcases with rfl | rfl | rfl | rfl
    · obtain ⟨next, hnext, hrole⟩ :=
        (Record.fills_cons_iff "ssoRoleArn").1 hrole
      exact ⟨_, bind_eq_ok_iff.2 ⟨next, hnext, rfl⟩, hrole, hinstance,
        hstore, hregion⟩
    · obtain ⟨next, hnext, hinstance⟩ :=
        (Record.fills_cons_iff "instanceArn").1 hinstance
      exact ⟨_, bind_eq_ok_iff.2 ⟨next, hnext, rfl⟩, hrole, hinstance,
        hstore, hregion⟩
    · obtain ⟨next, hnext, hstore⟩ :=
        (Record.fills_cons_iff "identityStoreId").1 hstore
      exact ⟨_, bind_eq_ok_iff.2 ⟨next, hnext, rfl⟩, hrole, hinstance,
        hstore, hregion⟩
    · obtain ⟨next, hnext, hregion⟩ :=
        (Record.fills_cons_iff "region").1 hregion
      exact ⟨_, bind_eq_ok_iff.2 ⟨next, hnext, rfl⟩, hrole, hinstance,
        hstore, hregion⟩
  · rintro ⟨next, hput, hrole, hinstance, hstore, hregion⟩
    rcases hcases with rfl | rfl | rfl | rfl <;>
      obtain ⟨filled, hfilled, heq⟩ := bind_eq_ok_iff.1 hput <;> cases heq
    · exact ⟨(Record.fills_cons_iff _).2 ⟨_, hfilled, hrole⟩, hinstance,
        hstore, hregion⟩
    · exact ⟨hrole, (Record.fills_cons_iff _).2 ⟨_, hfilled, hinstance⟩,
        hstore, hregion⟩
    · exact ⟨hrole, hinstance, (Record.fills_cons_iff _).2 ⟨_, hfilled, hstore⟩,
        hregion⟩
    · exact ⟨hrole, hinstance, hstore,
        (Record.fills_cons_iff _).2 ⟨_, hfilled, hregion⟩⟩

/-- A member with another name changes nothing. -/
theorem Places.filled_cons_unknown {name : String} {d : Document}
    {members : List (Key × Document)} {p q : Places}
    (hname : name ∉ record.fields) :
    p.Filled ((.name name, d) :: members) q ↔ p.Filled members q := by
  have hne : name ≠ "ssoRoleArn" ∧ name ≠ "instanceArn" ∧
      name ≠ "identityStoreId" ∧
      name ≠ "region" := by simpa [record] using hname
  obtain ⟨hrole, hinstance, hstore, hregion⟩ := hne
  constructor
  · rintro ⟨hr, hi, hs, hg⟩
    simp only [Record.valuesAt_cons, Key.name.injEq, hrole, hinstance,
      hstore, hregion, if_false] at hr hi hs hg
    exact ⟨hr, hi, hs, hg⟩
  · rintro ⟨hr, hi, hs, hg⟩
    constructor <;>
      simpa only [Record.valuesAt_cons, Key.name.injEq, hrole, hinstance,
        hstore, hregion, if_false]

theorem putMembers_eq_ok_iff {members : List (Key × Document)} {p q : Places}
    (hpassing : ∀ m ∈ members, m.2.passing = none) :
    record.putMembers members none p = .ok q ↔
      (∀ m ∈ members, ∃ name, m.1 = .name name) ∧ p.Filled members q := by
  induction members generalizing p with
  | nil =>
    rw [Places.filled_nil_iff]
    show Except.ok p = Except.ok q ↔ _
    simp
  | cons m members ih =>
    obtain ⟨key, value⟩ := m
    obtain ⟨hvalue, hothers⟩ := List.forall_mem_cons.1 hpassing
    rw [List.forall_mem_cons]
    cases key with
    | unreadable | foreign => simp [Record.putMembers]
    | name key =>
      have hkey : ∃ name, Key.name key = .name name := ⟨key, rfl⟩
      rw [Record.putMembers, and_iff_right hkey]
      by_cases hfield : key ∈ record.fields
      · rw [if_pos (by simpa using hfield), bind_eq_ok_iff,
          Places.filled_cons_iff hfield]
        simp only [ih hothers]
        constructor
        · rintro ⟨next, hput, hlegible, hfilled⟩
          exact ⟨hlegible, next, hput, hfilled⟩
        · rintro ⟨hlegible, next, hput, hfilled⟩
          exact ⟨next, hput, hlegible, hfilled⟩
      · rw [if_neg (by simpa using hfield), show value.passing = none
          from hvalue, Places.filled_cons_unknown hfield, ← ih hothers]
        rfl

/-! ## What documents say -/

/-- The kind of the identifier that a key of the document holds. -/
def kindOf : String → Option IdentifierKind
  | "ssoRoleArn" => some .roleArn
  | "instanceArn" => some .instanceArn
  | "identityStoreId" => some .identityStore
  | _ => none

/-- The string that a configuration carries for a key of the document. -/
def entry (c : ProviderConfig) : String → Option String
  | "ssoRoleArn" => some c.roleArn.text
  | "instanceArn" => some c.instanceArn.text
  | "identityStoreId" => some c.identityStoreId.text
  | "region" => c.region
  | _ => none

/-- Every required key occurs once, with a string that is an identifier of its
kind, and every optional one at most once, with a string or `null`. -/
structure Acceptable (members : List (List Piece × Tree)) : Prop where
  required : ∀ f ∈ fields, f.isOptional = false →
    ∃ kind s, kindOf f.key = some kind ∧
    Tree.Holds members f.key s ∧ ∃ i, Identifier.ofString? kind s = .ok i
  optional : ∀ f ∈ fields, f.isOptional = true →
    Tree.valuesOf f.key members = [] ∨
    Tree.valuesOf f.key members = [.null] ∨ ∃ s, Tree.Holds members f.key s

/-- A configuration carries the strings of the document and no other. -/
def Carries (c : ProviderConfig) (members : List (List Piece × Tree)) : Prop :=
  ∀ f ∈ fields, ∀ s, c.entry f.key = some s ↔ Tree.Holds members f.key s

/-- The members with a key of the document, in their order. -/
def known (members : List (List Piece × Tree)) : List (List Piece × Tree) :=
  members.filter fun m => fields.any fun f => Says m.1 f.key.toList

/-- What an object has to hold for a configuration to be read from it. -/
structure Describes (members : List (List Piece × Tree)) (c : ProviderConfig) :
    Prop where
  roleArn : ∃ s, Tree.Holds members "ssoRoleArn" s ∧
    Identifier.ofString? .roleArn s = .ok c.roleArn
  instanceArn : ∃ s, Tree.Holds members "instanceArn" s ∧
    Identifier.ofString? .instanceArn s = .ok c.instanceArn
  identityStoreId : ∃ s, Tree.Holds members "identityStoreId" s ∧
    Identifier.ofString? .identityStore s = .ok c.identityStoreId
  region : (Tree.valuesOf "region" members = [] ∨
    Tree.valuesOf "region" members = [.null]) ∧
      c.region = none ∨
    ∃ s, Tree.Holds members "region" s ∧ c.region = some s

theorem fills_identifier_iff {kind : IdentifierKind} {name : String}
    {members : List (List Piece × Tree)} {i : Identifier kind} :
    Record.Fills (Identifier.codec kind).ofDocument
        (Record.valuesAt name (Tree.memberDocuments members)) none (some i) ↔
      ∃ s, Tree.Holds members name s ∧ Identifier.ofString? kind s = .ok i := by
  rw [Record.fills_none_some_iff, Tree.valuesAt_memberDocuments]
  constructor
  · rintro ⟨d, hdocuments, hread⟩
    obtain ⟨t, hvalues, rfl⟩ := List.map_eq_singleton_iff.1 hdocuments
    obtain ⟨s, hs, hi⟩ := exists_ok_of_bind hread
    obtain ⟨pieces, rfl, hsays⟩ := Tree.readString_document_iff.1 hs
    refine ⟨s, ⟨pieces, hvalues, hsays⟩, ?_⟩
    split at hi
    · cases hi
    · cases hi
      assumption
  · rintro ⟨s, ⟨pieces, hvalues, hsays⟩, hi⟩
    refine ⟨_, by rw [hvalues]; rfl, bind_eq_ok_iff.2 ⟨s, ?_, by rw [hi]⟩⟩
    exact Tree.readString_document_iff.2 ⟨pieces, rfl, hsays⟩

theorem fills_region_iff {name : String} {members : List (List Piece × Tree)}
    {region : Option String} :
    (∃ filled, Record.Fills (Document.readOption Document.readString)
        (Record.valuesAt name (Tree.memberDocuments members)) none filled ∧
        filled.getD none = region) ↔
      (Tree.valuesOf name members = [] ∨ Tree.valuesOf name members = [.null]) ∧
      region = none ∨
        ∃ s, Tree.Holds members name s ∧ region = some s := by
  rw [Tree.valuesAt_memberDocuments]
  constructor
  · rintro ⟨filled, hfills, rfl⟩
    generalize hdocuments : (Tree.valuesOf name members).map Tree.document =
      ds at hfills
    cases hfills with
    | stays => exact .inl ⟨.inl (List.map_eq_nil_iff.1 hdocuments), rfl⟩
    | fills hread =>
      obtain ⟨t, hvalues, rfl⟩ := List.map_eq_singleton_iff.1 hdocuments
      rcases Tree.readOption_document_iff.1 hread with ⟨rfl, rfl⟩ | ⟨s, hs, rfl⟩
      · exact .inl ⟨.inr hvalues, rfl⟩
      · obtain ⟨pieces, rfl, hsays⟩ := Tree.readString_document_iff.1 hs
        exact .inr ⟨s, ⟨pieces, hvalues, hsays⟩, rfl⟩
  · rintro (⟨hvalues | hvalues, rfl⟩ | ⟨s, ⟨pieces, hvalues, hsays⟩,
      rfl⟩) <;> rw [hvalues]
    · exact ⟨none, .stays none, rfl⟩
    · exact ⟨some none, .fills rfl, rfl⟩
    · have hread := Tree.readString_document_iff.2 ⟨pieces, rfl, hsays⟩
      exact ⟨some (some s), .fills
        (Tree.readOption_document_iff.2 (.inr ⟨s, hread, rfl⟩)), rfl⟩

theorem legible_iff {members : List (List Piece × Tree)} :
    (∀ m ∈ Tree.memberDocuments members, ∃ name, m.1 = .name name) ↔
      Tree.Legible members := by
  rw [Tree.memberDocuments_eq_map]
  simp only [List.forall_mem_map, Json.pieceKey_eq_name_iff]
  refine forall₂_congr fun m _ =>
    ⟨fun ⟨name, h⟩ => ⟨_, h⟩, fun ⟨cs, h⟩ => ⟨.ofList cs, ?_⟩⟩
  rwa [String.toList_ofList]

theorem passing_of_mem_memberDocuments {members : List (List Piece × Tree)} :
    ∀ m ∈ Tree.memberDocuments members, m.2.passing = none := by
  rw [Tree.memberDocuments_eq_map]
  exact List.forall_mem_map.2 fun m _ => m.2.passing_document

theorem finish_eq_ok_iff {p : Places} {c : ProviderConfig} :
    record.finish p = .ok c ↔
      p.roleArn = some c.roleArn ∧ p.instanceArn = some c.instanceArn ∧
        p.identityStoreId = some c.identityStoreId ∧
        p.region.getD none = c.region := by
  obtain ⟨roleArn, instanceArn, identityStoreId, region⟩ := c
  show (Record.require "ssoRoleArn" p.roleArn >>= fun roleArn =>
    Record.require "instanceArn" p.instanceArn >>= fun instanceArn =>
    Record.require "identityStoreId" p.identityStoreId >>=
      fun identityStoreId =>
    Except.ok (ProviderConfig.mk roleArn instanceArn identityStoreId
      (p.region.getD none))) = _ ↔ _
  simp only [bind_eq_ok_iff, Record.require_eq_ok_iff]
  simp

/-- A configuration is read from an object that describes it and whose names are
texts. -/
theorem ofDocument_eq_ok_iff {members : List (List Piece × Tree)}
    {c : ProviderConfig} :
    record.ofDocument (Tree.object members).document = .ok c ↔
      Tree.Legible members ∧ Describes members c := by
  show record.putMembers (Tree.memberDocuments members) none {} >>=
    record.finish = .ok c ↔ _
  rw [bind_eq_ok_iff]
  simp only [putMembers_eq_ok_iff passing_of_mem_memberDocuments, legible_iff,
    finish_eq_ok_iff]
  constructor
  · rintro ⟨p, ⟨hlegible, hr, hi, hs, hg⟩, hrole, hinstance, hstore, hregion⟩
    rw [hrole] at hr
    rw [hinstance] at hi
    rw [hstore] at hs
    exact ⟨hlegible, fills_identifier_iff.1 hr, fills_identifier_iff.1 hi,
      fills_identifier_iff.1 hs, fills_region_iff.1 ⟨_, hg, hregion⟩⟩
  · rintro ⟨hlegible, hrole, hinstance, hstore, hregion⟩
    obtain ⟨filled, hg, hregion⟩ := fills_region_iff.2 hregion
    exact ⟨⟨some c.roleArn, some c.instanceArn, some c.identityStoreId, filled⟩,
      ⟨hlegible, fills_identifier_iff.2 hrole, fills_identifier_iff.2 hinstance,
        fills_identifier_iff.2 hstore, hg⟩, rfl, rfl, rfl, hregion⟩

/-- A configuration is read from the text of such an object. -/
theorem ofText_eq_ok_iff {text : String} {members : List (List Piece × Tree)}
    {c : ProviderConfig} (h : Text text (.object members)) :
    ofText text = .ok c ↔ Tree.Legible members ∧ Describes members c := by
  rw [← ofDocument_eq_ok_iff, ofText, Codec.decode_of_text h]
  show Except.mapError _ (record.ofDocument (Tree.object members).document) =
    _ ↔ _
  cases record.ofDocument (Tree.object members).document <;>
    simp [Except.mapError]

/-! ## Acceptance -/

theorem required_iff {key : String} {kind : IdentifierKind}
    (hkind : kindOf key = some kind) {members : List (List Piece × Tree)} :
    (∃ kind s, kindOf key = some kind ∧ Tree.Holds members key s ∧
        ∃ i, Identifier.ofString? kind s = .ok i) ↔
      ∃ i s, Tree.Holds members key s ∧
        Identifier.ofString? kind s = .ok i := by
  constructor
  · rintro ⟨kind', s, hkind', hs, i, hi⟩
    rw [hkind] at hkind'
    cases hkind'
    exact ⟨i, s, hs, hi⟩
  · rintro ⟨i, s, hs, hi⟩
    exact ⟨kind, s, hkind, hs, i, hi⟩

/-- An object is acceptable if it describes a configuration. -/
theorem acceptable_iff {members : List (List Piece × Tree)} :
    Acceptable members ↔ ∃ c, Describes members c := by
  have hrole : kindOf "ssoRoleArn" = some .roleArn := rfl
  have hinstance : kindOf "instanceArn" = some .instanceArn := rfl
  have hstore : kindOf "identityStoreId" = some .identityStore := rfl
  constructor
  · rintro ⟨hrequired, hoptional⟩
    simp only [fields, List.forall_mem_cons, forall_const, required_iff hrole,
      required_iff hinstance, required_iff hstore] at hrequired hoptional
    obtain ⟨⟨roleArn, hr⟩, ⟨identityStoreId, hs⟩, ⟨instanceArn, hi⟩, -⟩ :=
      hrequired
    obtain ⟨-, -, -, hregion, -⟩ := hoptional
    rcases hregion with hnone | hnull | ⟨region, hregion⟩
    · exact ⟨⟨roleArn, instanceArn, identityStoreId, none⟩, hr, hi, hs,
        .inl ⟨.inl hnone, rfl⟩⟩
    · exact ⟨⟨roleArn, instanceArn, identityStoreId, none⟩, hr, hi, hs,
        .inl ⟨.inr hnull, rfl⟩⟩
    · exact ⟨⟨roleArn, instanceArn, identityStoreId, some region⟩, hr, hi, hs,
        .inr ⟨region, hregion, rfl⟩⟩
  · rintro ⟨c, hr, hi, hs, hregion⟩
    refine ⟨?_, ?_⟩ <;>
      simp only [fields, List.forall_mem_cons, forall_const, required_iff hrole,
      required_iff hinstance, required_iff hstore]
    · exact ⟨⟨_, hr⟩, ⟨_, hs⟩, ⟨_, hi⟩, nofun, nofun⟩
    · refine ⟨nofun, nofun, nofun, ?_, nofun⟩
      rcases hregion with ⟨hnone | hnull, -⟩ | ⟨region, hregion, -⟩
      · exact .inl hnone
      · exact .inr (.inl hnull)
      · exact .inr (.inr ⟨region, hregion⟩)

/-- The text of an identifier is the one string that its key holds. -/
theorem some_text_eq_iff {key : String} {kind : IdentifierKind}
    {i : Identifier kind} {members : List (List Piece × Tree)}
    (h : ∃ s, Tree.Holds members key s ∧ Identifier.ofString? kind s = .ok i)
    (s : String) : some i.text = some s ↔ Tree.Holds members key s := by
  obtain ⟨s', hs', hi⟩ := h
  rw [Identifier.text_of_new? hi, Option.some.injEq]
  constructor
  · rintro rfl
    exact hs'
  · exact hs'.unique

/-- A configuration carries the strings of an object that describes it. -/
theorem Describes.carries {members : List (List Piece × Tree)}
    {c : ProviderConfig} (h : Describes members c) : c.Carries members := by
  obtain ⟨hr, hi, hs, hregion⟩ := h
  unfold Carries
  simp only [fields, List.forall_mem_cons]
  refine ⟨some_text_eq_iff hr, some_text_eq_iff hs, some_text_eq_iff hi,
    fun s => ?_, nofun⟩
  rcases hregion with ⟨hnone, hregion⟩ | ⟨region, hholds, hregion⟩
  · have hentry : c.entry "region" = none := hregion
    rw [hentry]
    constructor
    · exact nofun
    · rintro ⟨pieces, hvalues, -⟩
      rcases hnone with hnone | hnone <;> rw [hnone] at hvalues <;>
        cases hvalues
  · have hentry : c.entry "region" = some region := hregion
    rw [hentry, Option.some.injEq]
    constructor
    · rintro rfl
      exact hholds
    · exact hholds.unique

/-- The members with a key of the document decide what the keys hold. -/
theorem valuesOf_known {f : ConfigField} (hf : f ∈ fields)
    (members : List (List Piece × Tree)) :
    Tree.valuesOf f.key (known members) = Tree.valuesOf f.key members := by
  unfold Tree.valuesOf known
  rw [List.filterMap_filter]
  refine List.filterMap_congr fun m _ => ?_
  by_cases h : Says m.1 f.key.toList
  · have hknown : fields.any (fun f => Says m.1 f.key.toList) = true :=
      List.any_eq_true.2 ⟨f, hf, by simpa using h⟩
    rw [if_pos hknown]
  · simp [h]

/-- The order of the members and those with other names do not matter. -/
theorem Describes.of_perm {members members' : List (List Piece × Tree)}
    {c : ProviderConfig} (hperm : (known members).Perm (known members'))
    (h : Describes members c) : Describes members' c := by
  have hvalues : ∀ f ∈ fields, (Tree.valuesOf f.key members).Perm
      (Tree.valuesOf f.key members') :=
    fun f hf => by
      rw [← valuesOf_known hf members, ← valuesOf_known hf members']
      exact hperm.filterMap _
  simp only [fields, List.forall_mem_cons] at hvalues
  obtain ⟨hrole, hstore, hinstance, hregion, -⟩ := hvalues
  obtain ⟨⟨r, hr, hr'⟩, ⟨i, hi, hi'⟩, ⟨s, hs, hs'⟩, hregion'⟩ := h
  refine ⟨⟨r, hr.of_perm hrole, hr'⟩, ⟨i, hi.of_perm hinstance, hi'⟩,
    ⟨s, hs.of_perm hstore, hs'⟩, ?_⟩
  rcases hregion' with ⟨hnone | hnull, h⟩ | ⟨region, hholds, h⟩
  · rw [hnone] at hregion
    exact .inl ⟨.inl hregion.nil_eq.symm, h⟩
  · rw [hnull] at hregion
    exact .inl ⟨.inr (List.singleton_perm.1 hregion).symm, h⟩
  · exact .inr ⟨region, hholds.of_perm hregion, h⟩

theorem passing_of_putField {name : String} {d : Document} {p q : Places}
    (h : putField name d p = .ok q) : d.passing = none := by
  have hidentifier {kind : IdentifierKind} {i : Identifier kind}
      (h : (Identifier.codec kind).ofDocument d = .ok i) :
      d.passing = none := by
    obtain ⟨s, hs, -⟩ := exists_ok_of_bind h
    exact Document.passing_of_readString hs
  unfold putField at h
  split at h <;> obtain ⟨filled, hfilled, -⟩ := exists_ok_of_bind h <;>
    obtain ⟨-, b, hb, -⟩ := Record.fill_eq_ok_iff.1 hfilled
  · exact hidentifier hb
  · exact hidentifier hb
  · exact hidentifier hb
  · exact Document.passing_of_readOption
      (fun _ _ => Document.passing_of_readString) hb

/-- A configuration is read from JSON only. -/
theorem exists_text_of_ofText {text : String} {c : ProviderConfig}
    (h : ofText text = .ok c) : ∃ t, Text text t := by
  have hdecode : codec.decode text = .ok c := by
    unfold ofText at h
    cases hd : codec.decode text with
    | error e =>
      rw [hd] at h
      cases h
    | ok c' =>
      rw [hd] at h
      cases h
      rfl
  exact Codec.exists_text_of_decode
    (fun d a => Record.passing_of_ofDocument fun _ _ _ _ =>
      passing_of_putField) hdecode

/-- What is not read is refused as an unreadable document. -/
theorem refused_of_not_ok {text : String} (h : ¬∃ c, ofText text = .ok c) :
    ∃ e, ofText text = .error (.config (.unreadable e)) := by
  unfold ofText at h ⊢
  cases hd : codec.decode text with
  | error e => exact ⟨e, rfl⟩
  | ok c =>
    rw [hd] at h
    exact absurd ⟨c, rfl⟩ h

/-- Configuration documents are accepted exactly. -/
theorem accepted_exactly (text : String) :
    (∀ members, Text text (.object members) →
      ((∃ c, ofText text = .ok c) ↔ Tree.Legible members ∧ Acceptable members) ∧
        (∀ c, ofText text = .ok c → c.Carries members) ∧
        (∀ text' members', Text text' (.object members') →
          Tree.Legible members →
          Tree.Legible members' → (known members).Perm (known members') →
          ∀ c, ofText text = .ok c ↔ ofText text' = .ok c) ∧
        (¬(Tree.Legible members ∧ Acceptable members) →
          ∃ e, ofText text = .error (.config (.unreadable e)))) ∧
      ((¬∃ t, Text text t) →
        ∃ e, ofText text = .error (.config (.unreadable e))) := by
  refine ⟨fun members htext => ?_, fun hnone => ?_⟩
  · have hok : (∃ c, ofText text = .ok c) ↔
        Tree.Legible members ∧ Acceptable members := by
      simp only [ofText_eq_ok_iff htext, acceptable_iff, exists_and_left]
    refine ⟨hok, fun c hc => ((ofText_eq_ok_iff htext).1 hc).2.carries, ?_,
      fun hnot => refused_of_not_ok fun h => hnot (hok.1 h)⟩
    intro text' members' htext' hlegible hlegible' hperm c
    rw [ofText_eq_ok_iff htext, ofText_eq_ok_iff htext', and_iff_right hlegible,
      and_iff_right hlegible']
    exact ⟨.of_perm hperm, .of_perm hperm.symm⟩
  · exact refused_of_not_ok fun ⟨c, hc⟩ => hnone (exists_text_of_ofText hc)

/-- The pieces of a string without escapes. -/
def unescaped (s : String) : List Piece := s.toList.map .char

/-- Members in an order of their own: an unknown name twice, the name of a
required key and half of a surrogate pair inside such a member, and a digit
written as an escape. -/
def shuffledMembers : List (List Piece × Tree) :=
  [(unescaped "region", .null),
    (unescaped "x", .array [.object [(unescaped "ssoRoleArn", .boolean true)],
      .string [.unit 0xD800]]),
    (unescaped "identityStoreId", .string [.char 'd', .unit 0x31]),
    (unescaped "instanceArn", .string (unescaped "arn:i")),
    (unescaped "x", .object []),
    (unescaped "ssoRoleArn", .string (unescaped "arn:r"))]

/-- The text of these members. -/
def shuffledText : String :=
  "\x7b \"region\" : null,\"x\":[\x7b\"ssoRoleArn\":true\x7d,\"\\ud800\"],\n" ++
    "\"identityStoreId\":\"d\\u0031\",\"instanceArn\":\"arn:i\",\"x\":\x7b\x7d," ++
    "\"ssoRoleArn\":\"arn:r\"\x7d"

set_option maxRecDepth 8000 in
theorem text_shuffled : Text shuffledText (.object shuffledMembers) := by
  unfold Text shuffledText
  rw [String.toList_append, String.toList_append, List.append_assoc]
  refine .mk .none (.object (.next
    (.mk (.space rfl .none) (Json.characters_of_scanString rfl)
    (.space rfl .none) (.mk (.space rfl .none) .null .none)) ?_)) .none
  refine .next (.mk .none (Json.characters_of_scanString rfl) .none
    (.mk .none (.array (.next
    (.mk .none (.object (.last
      (.mk .none (Json.characters_of_scanString rfl) .none
      (.mk .none .true .none)))) .none)
    (.last (.mk .none (.string (Json.characters_of_scanString rfl)) .none))))
    .none)) ?_
  refine .next (.mk (.space rfl .none) (Json.characters_of_scanString rfl) .none
    (.mk .none (.string (Json.characters_of_scanString rfl)) .none)) ?_
  refine .next (.mk .none (Json.characters_of_scanString rfl) .none
    (.mk .none (.string (Json.characters_of_scanString rfl)) .none)) ?_
  refine .next (.mk .none (Json.characters_of_scanString rfl) .none
    (.mk .none (.emptyObject .none) .none)) ?_
  exact .last (.mk .none (Json.characters_of_scanString rfl) .none
    (.mk .none (.string (Json.characters_of_scanString rfl)) .none))

/-- The required ones of these members, the other way round. -/
def requiredMembers : List (List Piece × Tree) :=
  [(unescaped "ssoRoleArn", .string (unescaped "arn:r")),
    (unescaped "instanceArn", .string (unescaped "arn:i")),
    (unescaped "identityStoreId", .string [.char 'd', .unit 0x31])]

/-- The required members as they stand in a text. -/
def requiredSource : String :=
  "\"ssoRoleArn\":\"arn:r\",\"instanceArn\":\"arn:i\",\"identityStoreId\":\"d\\u0031\""

set_option maxRecDepth 8000 in
theorem members_required (rest : List Char) :
    Json.Grammar.Members requiredMembers
      (requiredSource.toList ++ rest) rest := by
  refine .next (.mk .none (Json.characters_of_scanString rfl) .none
    (.mk .none (.string (Json.characters_of_scanString rfl)) .none)) ?_
  refine .next (.mk .none (Json.characters_of_scanString rfl) .none
    (.mk .none (.string (Json.characters_of_scanString rfl)) .none)) ?_
  exact .last (.mk .none (Json.characters_of_scanString rfl) .none
    (.mk .none (.string (Json.characters_of_scanString rfl)) .none))

/-- The known members alone. -/
def plainMembers : List (List Piece × Tree) :=
  (unescaped "region", .null) :: requiredMembers

/-- The text of the known members. -/
def plainText : String := "\x7b\"region\":null," ++ requiredSource ++ "\x7d"

theorem text_plain : Text plainText (.object plainMembers) := by
  unfold Text plainText
  rw [String.toList_append, String.toList_append, List.append_assoc]
  exact .mk .none (.object (.next
    (.mk .none (Json.characters_of_scanString rfl) .none
    (.mk .none .null .none)) (members_required _))) .none

theorem known_shuffled : (known shuffledMembers).Perm (known plainMembers) :=
  requiredMembers.reverse_perm.cons _

/-- What the known members describe. -/
def plainConfig : ProviderConfig where
  roleArn := ⟨"arn:r", by decide +kernel⟩
  instanceArn := ⟨"arn:i", by decide +kernel⟩
  identityStoreId := ⟨"d1", by decide +kernel⟩
  region := none

theorem describes_plain : Describes plainMembers plainConfig where
  roleArn := ⟨"arn:r", ⟨_, rfl, Json.assemble_eq_some_iff.1 rfl⟩,
    by decide +kernel⟩
  instanceArn := ⟨"arn:i", ⟨_, rfl, Json.assemble_eq_some_iff.1 rfl⟩,
    by decide +kernel⟩
  identityStoreId := ⟨"d1", ⟨_, rfl, Json.assemble_eq_some_iff.1 rfl⟩,
    by decide +kernel⟩
  region := .inl ⟨.inr rfl, rfl⟩

theorem accepted_exactly_shuffled :
    (∃ c, ofText shuffledText = .ok c ∧ ofText plainText = .ok c ∧
      c.Carries shuffledMembers) ∧
      (∃ e, ofText "\x7b\x7d" = .error (.config (.unreadable e))) ∧
      ∃ e, ofText "\x7b,\x7d" = .error (.config (.unreadable e)) := by
  have hlegible : Tree.Legible shuffledMembers := by decide
  have hacceptable : Acceptable shuffledMembers :=
    acceptable_iff.2 ⟨plainConfig, describes_plain.of_perm known_shuffled.symm⟩
  have hempty : ¬Acceptable [] := fun h =>
    have ⟨_, _, _, ⟨_, hvalues, _⟩, _⟩ :=
      h.required (fields.head nofun) (List.head_mem _) rfl
    nomatch hvalues
  refine ⟨?_, ?_, ?_⟩
  · obtain ⟨hok, hcarries, hsame, -⟩ :=
      (accepted_exactly shuffledText).1 shuffledMembers text_shuffled
    obtain ⟨c, hc⟩ := hok.2 ⟨hlegible, hacceptable⟩
    have hplain :=
      hsame plainText plainMembers text_plain hlegible (by decide)
        known_shuffled c
    exact ⟨c, hc, hplain.1 hc, hcarries c hc⟩
  · exact ((accepted_exactly "\x7b\x7d").1 []
      (.mk .none (.emptyObject .none) .none)).2.2.2 fun h => hempty h.2
  · exact (accepted_exactly "\x7b,\x7d").2
      (by rw [Json.exists_text_iff]; decide +kernel)

/-- The known members after one whose name is half of a surrogate pair. -/
def unpairedMembers : List (List Piece × Tree) :=
  ([.unit 0xD800], .null) :: plainMembers

/-- The text of these members. -/
def unpairedText : String :=
  "\x7b\"\\ud800\":null,\"region\":null," ++ requiredSource ++ "\x7d"

theorem text_unpaired : Text unpairedText (.object unpairedMembers) := by
  unfold Text unpairedText
  rw [String.toList_append, String.toList_append, List.append_assoc]
  refine .mk .none (.object (.next
    (.mk .none (Json.characters_of_scanString rfl) .none
    (.mk .none .null .none)) ?_)) .none
  exact .next (.mk .none (Json.characters_of_scanString rfl) .none
    (.mk .none .null .none)) (members_required _)

/-- An unknown name that is no text keeps an acceptable object from being
read. -/
theorem unpaired_name_refused :
    Text unpairedText (.object unpairedMembers) ∧ Acceptable unpairedMembers ∧
      ofText unpairedText = .error (.config (.unreadable .malformed)) := by
  have hknown : (known plainMembers).Perm (known unpairedMembers) := .refl _
  refine ⟨text_unpaired, acceptable_iff.2
    ⟨plainConfig, describes_plain.of_perm hknown⟩, ?_⟩
  rw [ofText, Codec.decode_of_text text_unpaired]
  rfl

end ProviderConfig

end CloudAccess
