import CloudAccess.Proofs.Cache.Handoff
import CloudAccess.Proofs.Provider.Alone
import CloudAccess.Proofs.Provider.Dialogue
import Mathlib.Data.List.Induction
import Mathlib.Data.Sum.Basic

/-!
# The lookup of a permission set, call by call

A lookup describes its permission set and reads the tags page by page, until it
knows whether the set is managed.

* `TagsDecide` says what the answers on the tags come to, and after how many of
  them, and `Concludes` adds the description.
* `Stands` lists the places that a lookup can be at, with what it has asked and
  heard there.  `Stands.exchange` says that a turn leads from one of them to
  another.
* `Consults` is how a lookup has to do with the answers that it gets.
* `winds` says that a lookup by itself over planned answers comes to its end.
* `managed_lookup` puts these together.
-/

namespace CloudAccess

/-- A page of tags after which the next one is asked for. -/
def TagPage.Leads (page : TagPage) : Prop :=
  page.marksManaged = false ∧ page.nextToken.isSome = true

/-! ## What the answers come to -/

/-- What the answers on the tags of a permission set come to, and after how many
of them. -/
inductive TagsDecide (arn label : String) :
    List (Outcome TagPage) → Nat → Outcome EnrichedItem → Prop
  | hit {before : List TagPage} {page : TagPage}
      {later : List (Outcome TagPage)}
      (hbefore : ∀ q ∈ before, q.marksManaged = false)
      (hmarks : page.marksManaged = true) :
      TagsDecide arn label (before.map .value ++ .value page :: later)
        (before.length + 1)
        (.value (.accepted arn label arn))
  | exhausted {pages : List TagPage}
      (hpages : ∀ q ∈ pages, q.marksManaged = false) :
      TagsDecide arn label (pages.map .value) pages.length
        (.value (.rejected arn))
  | failure {before : List TagPage} {e : RemoteError}
      {later : List (Outcome TagPage)}
      (hbefore : ∀ q ∈ before, q.marksManaged = false) :
      TagsDecide arn label (before.map .value ++ .failed e :: later)
        (before.length + 1)
        (.failed e)
  | crash {before : List TagPage} {later : List (Outcome TagPage)}
      (hbefore : ∀ q ∈ before, q.marksManaged = false) :
      TagsDecide arn label (before.map .value ++ .crashed :: later)
        (before.length + 1) .crashed

/-- What the answers on a permission set come to, and after how many pages of
tags. -/
inductive Concludes (arn : String) (tags : List (Outcome TagPage)) :
    Outcome PermissionSet → Nat → Outcome EnrichedItem → Prop
  | undescribed {described : Outcome PermissionSet}
      (hnone : described.isValue = false) :
      Concludes arn tags described 0 (described.without fun _ => .crashed)
  | described {p : PermissionSet} {n : Nat} {o : Outcome EnrichedItem}
      (htags : TagsDecide arn p.label tags n o) :
      Concludes arn tags (.value p) n o

variable {arn label : String} {tags rest : List (Outcome TagPage)} {n : Nat}
  {o : Outcome EnrichedItem}

theorem forall_cons_unmarked {page : TagPage} {pages : List TagPage}
    (hpage : page.marksManaged = false)
    (hpages : ∀ q ∈ pages, q.marksManaged = false) :
    ∀ q ∈ page :: pages, q.marksManaged = false :=
  List.forall_mem_cons.2 ⟨hpage, hpages⟩

/-- A page without the tag leaves it to the others. -/
theorem TagsDecide.cons {page : TagPage} (h : TagsDecide arn label rest n o)
    (hpage : page.marksManaged = false) :
    TagsDecide arn label (.value page :: rest) (n + 1) o := by
  cases h with
  | @hit before _ _ hbefore hmarks =>
    exact @TagsDecide.hit _ _ (page :: before) _ _
      (forall_cons_unmarked hpage hbefore) hmarks
  | @exhausted pages hpages =>
    exact @TagsDecide.exhausted _ _ (page :: pages)
      (forall_cons_unmarked hpage hpages)
  | @failure before _ _ hbefore =>
    exact @TagsDecide.failure _ _ (page :: before) _ _
      (forall_cons_unmarked hpage hbefore)
  | @crash before _ hbefore =>
    exact @TagsDecide.crash _ _ (page :: before) _
      (forall_cons_unmarked hpage hbefore)

/-- Pages without the tag leave it to the others. -/
theorem TagsDecide.append {pages : List TagPage}
    (h : TagsDecide arn label rest n o)
    (hpages : ∀ q ∈ pages, q.marksManaged = false) :
    TagsDecide arn label (pages.map .value ++ rest) (pages.length + n) o := by
  induction pages with
  | nil => simpa using h
  | cons page pages ih =>
    obtain ⟨hpage, hpages⟩ := List.forall_mem_cons.1 hpages
    rw [List.length_cons, Nat.add_right_comm]
    exact (ih hpages).cons hpage

/-- An answer decides that is no page, or a page with the tag or without a next
one. -/
theorem tagsDecide_first (arn label : String) {answer : Outcome TagPage}
    (hlinked : PagesLinked (·.nextToken) (answer :: rest))
    (hlast : ∀ page, answer = .value page →
      page.marksManaged = true ∨ page.nextToken = none) :
    TagsDecide arn label (answer :: rest) 1
      (tagVerdict arn label [answer]) := by
  have hnone : ∀ q ∈ ([] : List TagPage), q.marksManaged = false :=
    fun _ => nofun
  cases answer with
  | failed e => exact .failure hnone
  | crashed => exact .crash hnone
  | value page =>
    cases hmarks : page.marksManaged with
    | true =>
      rw [tagVerdict, if_pos hmarks]
      exact .hit hnone hmarks
    | false =>
      have hend : page.nextToken = none :=
        (hlast page rfl).resolve_left (by simp [hmarks])
      obtain rfl := hlinked.eq_nil_of_none hend
      have hone : TagsDecide arn label [.value page] 1
          (.value (.rejected arn)) :=
        (TagsDecide.exhausted hnone).cons hmarks
      simpa [tagVerdict, hmarks] using hone

/-- The answers of each chain come to something. -/
theorem exists_tagsDecide (arn label : String)
    (hlinked : PagesLinked (·.nextToken) tags) :
    ∃ n o, TagsDecide arn label tags (n + 1) o := by
  induction hlinked with
  | last hlast =>
    exact ⟨0, _, tagsDecide_first _ _ (.last hlast) fun page hpage =>
      .inr (hlast page hpage)⟩
  | @more answer rest hsome hrest ih =>
    by_cases hleads : ∃ page, answer = .value page ∧ page.marksManaged = false
    · obtain ⟨page, rfl, hpage⟩ := hleads
      obtain ⟨n, o, hn⟩ := ih
      exact ⟨n + 1, o, hn.cons hpage⟩
    · refine ⟨0, _, tagsDecide_first _ _ (.more hsome hrest) fun page hpage =>
        .inl ?_⟩
      simpa using fun hmarks => hleads ⟨page, hpage, hmarks⟩

/-- They come to what the listing of the permission sets makes of them. -/
theorem TagsDecide.eq_tagVerdict (h : TagsDecide arn label tags n o) :
    o = tagVerdict arn label tags := by
  have hskip (rest : List (Outcome TagPage)) {before : List TagPage}
      (hbefore : ∀ q ∈ before, q.marksManaged = false) :
      tagVerdict arn label (before.map .value ++ rest) =
        tagVerdict arn label rest := by
    induction before with
    | nil => rfl
    | cons page before ih =>
      obtain ⟨hpage, hbefore⟩ := List.forall_mem_cons.1 hbefore
      simp [tagVerdict, hpage, ih hbefore]
  cases h with
  | hit hbefore hmarks => simp [hskip _ hbefore, tagVerdict, hmarks]
  | exhausted hpages => simpa [tagVerdict] using (hskip [] hpages).symm
  | failure hbefore | crash hbefore => simp [hskip _ hbefore, tagVerdict]

theorem Concludes.eq_verdict {described : Outcome PermissionSet}
    (h : Concludes arn tags described n o) :
    o = verdict arn described tags := by
  cases h with
  | undescribed hnone => cases described <;> first | rfl | cases hnone
  | described htags => exact htags.eq_tagVerdict

/-- A page with the tag decides if every one before it came. -/
theorem tagVerdict_of_carries {before later : List (Outcome TagPage)}
    {page : TagPage} (hmarks : page.marksManaged = true)
    (hbefore : ∀ b ∈ before, b.isValue = true) :
    tagVerdict arn label (before ++ .value page :: later) =
      .value (.accepted arn label arn) := by
  induction before with
  | nil => simp [tagVerdict, hmarks]
  | cons b before ih =>
    obtain ⟨hb, hrest⟩ := List.forall_mem_cons.1 hbefore
    cases b with
    | value q =>
      rw [List.cons_append, tagVerdict, ih hrest]
      split <;> rfl
    | failed | crashed => cases hb

/-- A permission set is accepted exactly if it is described and some page has
the tag, where every page before it came. -/
theorem Concludes.accepted_iff {described : Outcome PermissionSet}
    (h : Concludes arn tags described n o) :
    (∃ label, o = .value (.accepted arn label arn)) ↔
      described.isValue = true ∧
        ∃ before page later, tags = before ++ .value page :: later ∧
          page.marksManaged = true ∧ ∀ b ∈ before, b.isValue = true := by
  constructor
  · rintro ⟨label, rfl⟩
    generalize hitem : Outcome.value (EnrichedItem.accepted arn label arn) = o
      at h
    cases h with
    | undescribed hnone =>
      cases described <;> simp_all [Outcome.without, Outcome.isValue]
    | described htags =>
      cases htags with
      | @hit before page later hbefore hmarks =>
        exact ⟨rfl, before.map .value, page, later, rfl, hmarks,
          by simp [Outcome.isValue]⟩
      | exhausted =>
        simp [EnrichedItem.accepted, EnrichedItem.rejected] at hitem
      | failure | crash => cases hitem
  · rintro ⟨hvalue, before, page, later, rfl, hmarks, hbefore⟩
    rw [h.eq_verdict]
    cases described with
    | value p => exact ⟨p.label, tagVerdict_of_carries hmarks hbefore⟩
    | failed | crashed => cases hvalue

namespace SetLookup

/-! ## Lookups as dialogues -/

/-- What a lookup hears: how its permission set was described, or a page of
tags. -/
abbrev Answer := Outcome PermissionSet ⊕ Outcome TagPage

/-- The lookup of a permission set as a task that makes calls. -/
def inquirer (credentials : Option Handle) :
    Inquirer SetLookup Answer (Outcome EnrichedItem) where
  turn e task := (e.directory.lookupTurn credentials e.world e.situation task).2
  name
    | .describing _ call => call.name
    | .readingTags _ _ _ call => call.name
  reply e
    | .describing _ call => (call.reply credentials e).map .inl
    | .readingTags _ _ _ call => (call.reply credentials e).map .inr

/-- A lookup with what it has asked and heard. -/
abbrev Talk := Dialogue SetLookup Answer (Outcome EnrichedItem)

/-- The lookup of a permission set after some turns. -/
def talk (credentials : Option Handle) (d : Directory) (arn : String)
    (turns : List Surroundings) : Talk :=
  (inquirer credentials).after
    ((inquirer credentials).start ((d.remote credentials).lookup arn)) turns

/-- The calls for the description and for the pages of tags, one after
another. -/
def calls (arn : String) (tags : List (Outcome TagPage)) : List DirectoryCall :=
  .describe arn :: pageCalls (.tags arn) (·.nextToken) tags

variable {credentials : Option Handle} {e : Surroundings} {x : Talk}
  {cancelled : Bool}

/-- A page that leads on is followed by the call for the next one, unless the
enumeration is cancelled. -/
theorem follow_afterTags_of_leads (d : Directory) (arn label : String) (k : Nat)
    {page : TagPage} (hpage : page.Leads) (stopped : Bool) :
    d.follow arn k (Inquiry.afterTags arn label page stopped) =
      if stopped then .done (.value (.rejected arn))
      else .goOn (.readingTags arn label k
        (d.listTags arn k page.nextToken)) := by
  obtain ⟨hmarks, hsome⟩ := hpage
  obtain ⟨token, hnext⟩ := Option.isSome_iff_exists.1 hsome
  have hnot : page.tags.any Tag.marksManaged = false := hmarks
  simp only [Inquiry.afterTags, hnot, hnext, Inquiry.askTags,
    Bool.false_eq_true, if_false]
  cases stopped <;> rfl

/-- Any other page ends the lookup. -/
theorem follow_afterTags_of_last (d : Directory) (arn label : String) (k : Nat)
    {page : TagPage} (hlast : page.marksManaged = true ∨ page.nextToken = none)
    (stopped : Bool) :
    d.follow arn k (Inquiry.afterTags arn label page stopped) =
      .done (tagVerdict arn label [.value page]) := by
  unfold Inquiry.afterTags tagVerdict
  cases hmarks : page.marksManaged with
  | true =>
    rw [if_pos (show page.tags.any Tag.marksManaged = true from hmarks)]; rfl
  | false =>
    rw [if_neg (by simpa [TagPage.marksManaged] using hmarks),
      hlast.resolve_left (by simp [hmarks])]
    rfl

/-- A turn in which the description is under way. -/
theorem exchange_describing {call : Call PermissionSet}
    (htask : x.task = .inl (.describing arn call)) :
    (∃ call', (inquirer credentials).exchange x e =
        { x with task := .inl (.describing arn call') }) ∨
      (∃ o : Outcome PermissionSet, o.isValue = false ∧
        (inquirer credentials).exchange x e =
        ⟨.inr (o.without fun _ => .crashed), x.asked, x.heard ++ [.inl o]⟩) ∨
      ∃ p : PermissionSet, (inquirer credentials).exchange x e =
        if e.situation.cancelled then
          ⟨.inr (.value (.rejected arn)), x.asked, x.heard ++ [.inl (.value p)]⟩
        else ⟨.inl (.readingTags arn p.label 0
          (e.directory.listTags arn 0 none)),
          x.asked ++ [.tags arn none], x.heard ++ [.inl (.value p)]⟩ := by
  have hembed {w : DirectoryWorld}
      {turned : Turn (Call PermissionSet) (Outcome PermissionSet)}
      (hturn : call.turn credentials e.world e.situation = (w, turned)) :
      (inquirer credentials).turn e (.describing arn call) =
        Directory.embed (.describing arn) (fun p => e.directory.follow arn 0
          (Inquiry.afterDescription arn p e.situation.cancelled)) turned := by
    simp [inquirer, Directory.lookupTurn, hturn]
  rcases call.reply_cases credentials e with
    ⟨w, c', hturn, hreply⟩ | ⟨w, o, hturn, hreply⟩
  · exact .inl ⟨c', Inquirer.exchange_of_waits _ htask (hembed hturn)
      (by simp [inquirer, hreply])⟩
  · have hheard : (inquirer credentials).reply e (.describing arn call) =
        some (.inl o) := by
      simp [inquirer, hreply]
    cases o with
    | failed err =>
      exact .inr (.inl ⟨.failed err, rfl,
        Inquirer.exchange_of_ends _ htask (hembed hturn) hheard⟩)
    | crashed =>
      exact .inr (.inl ⟨.crashed, rfl,
        Inquirer.exchange_of_ends _ htask (hembed hturn) hheard⟩)
    | value p =>
      refine .inr (.inr ⟨p, Inquirer.exchange_of_asks_unless _ htask
        ((hembed hturn).trans ?_) hheard⟩)
      show e.directory.follow arn 0 (Inquiry.afterDescription arn p _) = _
      unfold Inquiry.afterDescription Inquiry.askTags
      split <;> rfl

/-- A turn in which a page of tags is under way. -/
theorem exchange_readingTags {k : Nat} {call : Call TagPage}
    (htask : x.task = .inl (.readingTags arn label k call)) :
    (∃ call', (inquirer credentials).exchange x e =
        { x with task := .inl (.readingTags arn label k call') }) ∨
      (∃ answer : Outcome TagPage,
        (∀ page, answer = .value page →
          page.marksManaged = true ∨ page.nextToken = none) ∧
        (inquirer credentials).exchange x e =
          ⟨.inr (tagVerdict arn label [answer]), x.asked,
            x.heard ++ [.inr answer]⟩) ∨
      ∃ page : TagPage, page.Leads ∧ (inquirer credentials).exchange x e =
        if e.situation.cancelled then
          ⟨.inr (.value (.rejected arn)), x.asked,
            x.heard ++ [.inr (.value page)]⟩
        else ⟨.inl (.readingTags arn label (k + 1)
            (e.directory.listTags arn (k + 1) page.nextToken)),
          x.asked ++ [.tags arn page.nextToken],
            x.heard ++ [.inr (.value page)]⟩ := by
  have hembed {w : DirectoryWorld}
      {turned : Turn (Call TagPage) (Outcome TagPage)}
      (hturn : call.turn credentials e.world e.situation = (w, turned)) :
      (inquirer credentials).turn e (.readingTags arn label k call) =
        Directory.embed (.readingTags arn label k)
        (fun p => e.directory.follow arn (k + 1)
          (Inquiry.afterTags arn label p e.situation.cancelled)) turned := by
    simp [inquirer, Directory.lookupTurn, hturn]
  rcases call.reply_cases credentials e with
    ⟨w, c', hturn, hreply⟩ | ⟨w, o, hturn, hreply⟩
  · exact .inl ⟨c', Inquirer.exchange_of_waits _ htask (hembed hturn)
      (by simp [inquirer, hreply])⟩
  · have hheard : (inquirer credentials).reply e
        (.readingTags arn label k call) = some (.inr o) := by
      simp [inquirer, hreply]
    cases o with
    | failed err =>
      exact .inr (.inl ⟨.failed err, by rintro _ ⟨⟩,
        Inquirer.exchange_of_ends _ htask (hembed hturn) hheard⟩)
    | crashed =>
      exact .inr (.inl ⟨.crashed, by rintro _ ⟨⟩,
        Inquirer.exchange_of_ends _ htask (hembed hturn) hheard⟩)
    | value page =>
      by_cases hlast : page.marksManaged = true ∨ page.nextToken = none
      · refine .inr (.inl ⟨.value page, by rintro _ ⟨⟩; exact hlast,
          Inquirer.exchange_of_ends _ htask ((hembed hturn).trans ?_) hheard⟩)
        exact follow_afterTags_of_last _ _ _ _ hlast _
      · have hleads : page.Leads := by
          simpa [TagPage.Leads, Option.isSome_iff_ne_none] using hlast
        refine .inr (.inr ⟨page, hleads,
          Inquirer.exchange_of_asks_unless _ htask
          ((hembed hturn).trans ?_) hheard⟩)
        exact follow_afterTags_of_leads _ _ _ _ hleads _

/-- A lookup that is cancelled decides on no further call. -/
theorem asked_exchange_of_cancelled
    (hcancelled : e.situation.cancelled = true) :
    ((inquirer credentials).exchange x e).asked = x.asked := by
  rcases htask : x.task with (⟨arn, call⟩ | ⟨arn, label, k, call⟩) | o
  · rcases exchange_describing htask with ⟨_, heq⟩ | ⟨_, _, heq⟩ | ⟨_, heq⟩ <;>
      rw [heq]
    rw [if_pos hcancelled]
  · rcases exchange_readingTags htask with
      ⟨_, heq⟩ | ⟨_, _, heq⟩ | ⟨_, _, heq⟩ <;> rw [heq]
    rw [if_pos hcancelled]
  · rw [Inquirer.exchange_of_ended _ htask]

/-- So it is as long as it is cancelled. -/
theorem asked_after_of_cancelled {later : List Surroundings}
    (hcancelled : ∀ e ∈ later, e.situation.cancelled = true) :
    ((inquirer credentials).after x later).asked = x.asked := by
  induction later generalizing x with
  | nil => rfl
  | cons e later ih =>
    obtain ⟨he, hlater⟩ := List.forall_mem_cons.1 hcancelled
    exact (ih hlater).trans (asked_exchange_of_cancelled he)

/-! ## Where a lookup stands -/

/-- What a lookup has heard that has got such answers on its tags. -/
def answersOn (p : PermissionSet) (tags : List (Outcome TagPage)) :
    List Answer :=
  .inl (.value p) :: tags.map .inr

/-- The places that a lookup can be at, with what it has asked and heard there.
`cancelled` says whether some turn was cancelled. -/
inductive Stands (arn : String) (cancelled : Bool) (x : Talk) : Prop
  | describing {call : Call PermissionSet}
      (htask : x.task = .inl (.describing arn call))
      (hasked : x.asked = [.describe arn]) (hheard : x.heard = [])
  | undescribed {o : Outcome PermissionSet} (hnone : o.isValue = false)
      (htask : x.task = .inr (o.without fun _ => .crashed))
      (hasked : x.asked = [.describe arn]) (hheard : x.heard = [.inl o])
  | unread {p : PermissionSet} (hcancelled : cancelled = true)
      (htask : x.task = .inr (.value (.rejected arn)))
      (hasked : x.asked = [.describe arn])
      (hheard : x.heard = [.inl (.value p)])
  | reading {p : PermissionSet} {call : Call TagPage} {pages : List TagPage}
      (hleads : ∀ q ∈ pages, q.Leads)
      (htask : x.task = .inl (.readingTags arn p.label pages.length call))
      (hasked : x.asked = calls arn (pages.map .value))
      (hheard : x.heard = answersOn p (pages.map .value))
  | decided {p : PermissionSet} {pages : List TagPage}
      {answer : Outcome TagPage} (hleads : ∀ q ∈ pages, q.Leads)
      (hlast : ∀ page, answer = .value page →
        page.marksManaged = true ∨ page.nextToken = none)
      (htask : x.task = .inr (tagVerdict arn p.label [answer]))
      (hasked : x.asked = calls arn (pages.map .value))
      (hheard : x.heard = answersOn p (pages.map .value ++ [answer]))
  | stopped {p : PermissionSet} {pages : List TagPage} {page : TagPage}
      (hcancelled : cancelled = true) (hleads : ∀ q ∈ pages ++ [page], q.Leads)
      (htask : x.task = .inr (.value (.rejected arn)))
      (hasked : x.asked = calls arn (pages.map .value))
      (hheard : x.heard = answersOn p (pages.map .value ++ [.value page]))

/-- A lookup that has ended stands where it stood. -/
theorem Stands.later (h : Stands arn cancelled x) (now : Bool)
    (hover : x.task.isRight = true) : Stands arn (cancelled || now) x := by
  have hstill (hcancelled : cancelled = true) : (cancelled || now) = true := by
    simp [hcancelled]
  cases h with
  | describing htask | reading _ htask => rw [htask] at hover; cases hover
  | undescribed hnone htask hasked hheard =>
    exact .undescribed hnone htask hasked hheard
  | unread hcancelled htask hasked hheard =>
    exact .unread (hstill hcancelled) htask hasked hheard
  | decided hleads hlast htask hasked hheard =>
    exact .decided hleads hlast htask hasked hheard
  | stopped hcancelled hleads htask hasked hheard =>
    exact .stopped (hstill hcancelled) hleads htask hasked hheard

/-- A turn leads from one of these places to another. -/
theorem Stands.exchange (h : Stands arn cancelled x) :
    Stands arn (cancelled || e.situation.cancelled)
      ((inquirer credentials).exchange x e) := by
  have hover {o : Outcome EnrichedItem} (htask : x.task = .inr o) :
      Stands arn (cancelled || e.situation.cancelled)
        ((inquirer credentials).exchange x e) := by
    rw [Inquirer.exchange_of_ended _ htask]
    exact h.later _ (by rw [htask]; rfl)
  cases h with
  | undescribed _ htask | unread _ htask | decided _ _ htask
  | stopped _ _ htask =>
    exact hover htask
  | describing htask hasked hheard =>
    rcases exchange_describing htask with
      ⟨call', heq⟩ | ⟨o, hnone, heq⟩ | ⟨p, heq⟩ <;>
      rw [heq, hasked, hheard]
    · exact .describing rfl rfl rfl
    · exact .undescribed hnone rfl rfl rfl
    · split
      · rename_i hc
        exact .unread (by simp [hc]) rfl rfl rfl
      · exact @Stands.reading _ _ _ p _ [] (fun _ => nofun) rfl rfl rfl
  | @reading p call pages hleads htask hasked hheard =>
    rcases exchange_readingTags htask with
      ⟨call', heq⟩ | ⟨answer, hlast, heq⟩ | ⟨page, hpage, heq⟩ <;>
        rw [heq, hasked, hheard]
    · exact .reading hleads rfl rfl rfl
    · exact .decided hleads hlast rfl rfl (by simp [answersOn])
    · have hall : ∀ q ∈ pages ++ [page], q.Leads := by
        simpa [or_imp, forall_and] using ⟨hleads, hpage⟩
      split
      · rename_i hc
        exact @Stands.stopped _ _ _ p pages page (by simp [hc]) hall rfl rfl
          (by simp [answersOn])
      · exact @Stands.reading _ _ _ p _ (pages ++ [page]) hall
          (by rw [List.length_append]; rfl)
          (by simp [calls, pageCalls_concat]) (by simp [answersOn])

theorem stands_talk (credentials : Option Handle) (d : Directory) (arn : String)
    (turns : List Surroundings) :
    Stands arn (turns.any (·.situation.cancelled))
      (talk credentials d arn turns) := by
  induction turns using List.reverseRecOn with
  | nil => exact .describing rfl rfl rfl
  | append_singleton turns e ih =>
    have hstep : Stands arn (turns.any (·.situation.cancelled) ||
        e.situation.cancelled)
        ((inquirer credentials).exchange (talk credentials d arn turns) e) :=
        ih.exchange
    rw [talk, Inquirer.after_concat, List.any_append]
    simpa [talk] using hstep

/-! ## Lookups and what they hear -/

/-- How a lookup has to do with the answers on its permission set, which decide
on `o` after `n` pages of tags.  `cancelled` says whether some turn was
cancelled. -/
structure Consults (arn : String) (tags : List (Outcome TagPage)) (n : Nat)
    (o : Outcome EnrichedItem) (cancelled : Bool) (x : Talk) : Prop where
  /-- The calls are made in their order, and none after the one that decides. -/
  asked : x.asked <+: (calls arn tags).take (n + 1)
  /-- At most one call is under way. -/
  count : x.asked.length = x.heard.length + if x.task.isLeft then 1 else 0
  /-- The answer that decides ends the lookup. -/
  decided : x.heard.length = n + 1 → x.task = .inr o
  /-- Nothing else ends it unless it is cancelled. -/
  uncut : cancelled = false → x.task.isRight = true → x.heard.length = n + 1
  /-- A lookup that is cut off rejects its permission set. -/
  cut : ∀ o', x.task = .inr o' → x.heard.length ≠ n + 1 →
    o' = .value (.rejected arn)

variable {described : Outcome PermissionSet}

/-- The answers on a permission set come to something. -/
theorem exists_concludes (arn : String)
    (hlinked : PagesLinked (·.nextToken) tags)
    (described : Outcome PermissionSet) :
    ∃ n o, Concludes arn tags described n o := by
  cases described with
  | value p =>
    obtain ⟨n, o, htags⟩ := exists_tagsDecide arn p.label hlinked
    exact ⟨n + 1, o, .described htags⟩
  | failed | crashed => exact ⟨0, _, .undescribed rfl⟩

/-- The answers on the tags that were heard are the first ones. -/
theorem answersOn_prefix {p : PermissionSet} {heard : List (Outcome TagPage)}
    (h : answersOn p heard <+: .inl described :: tags.map .inr) :
    described = .value p ∧ heard <+: tags := by
  obtain ⟨hdescribed, hheard⟩ := List.cons_prefix_cons.1 h
  exact ⟨(Sum.inl.inj hdescribed).symm,
    (List.prefix_map_iff_of_injective Sum.inr_injective).1 hheard⟩

theorem length_calls (arn : String) (tags : List (Outcome TagPage)) :
    (calls arn tags).length = tags.length + 2 := by
  simp [calls, length_pageCalls]

theorem length_answersOn (p : PermissionSet) (tags : List (Outcome TagPage)) :
    (answersOn p tags).length = tags.length + 1 := by
  simp [answersOn]

/-- A lookup has made the first calls. -/
theorem calls_prefix {heard : List (Outcome TagPage)} (hheard : heard <+: tags)
    (hlt : heard.length < n) :
    calls arn heard <+: (calls arn tags).take (n + 1) := by
  rw [calls, calls, List.take_succ_cons]
  exact List.cons_prefix_cons.2 ⟨rfl, pageCalls_prefix _ _ hheard hlt⟩

theorem unmarked {pages : List TagPage} (hleads : ∀ q ∈ pages, q.Leads) :
    ∀ q ∈ pages, q.marksManaged = false := fun q hq => (hleads q hq).1

/-- Pages that lead on do not decide. -/
theorem exists_concludes_after (arn : String) {p : PermissionSet}
    {pages : List TagPage} (hlinked : PagesLinked (·.nextToken) tags)
    (hpages : pages.map .value <+: tags) (hleads : ∀ q ∈ pages, q.Leads) :
    ∃ n o, Concludes arn tags (.value p) n o ∧ pages.length < n := by
  obtain ⟨rest, rfl, hrest⟩ :=
    hlinked.exists_rest hpages fun q hq => (hleads q hq).2
  obtain ⟨n, o, htags⟩ := exists_tagsDecide arn p.label hrest
  exact ⟨_, o, .described (htags.append (unmarked hleads)), by omega⟩

/-- An answer after them that does not lead on decides. -/
theorem concludes_last (arn : String) {p : PermissionSet} {pages : List TagPage}
    {answer : Outcome TagPage} (hlinked : PagesLinked (·.nextToken) tags)
    (hheard : pages.map .value ++ [answer] <+: tags)
    (hleads : ∀ q ∈ pages, q.Leads)
    (hlast : ∀ page, answer = .value page →
      page.marksManaged = true ∨ page.nextToken = none) :
    Concludes arn tags (.value p) (pages.length + 1)
      (tagVerdict arn p.label [answer]) := by
  obtain ⟨rest, hsplit, hrest⟩ :=
    hlinked.exists_rest ((List.prefix_append _ _).trans hheard)
    fun q hq => (hleads q hq).2
  obtain ⟨later, rfl⟩ : [answer] <+: rest :=
    (List.prefix_append_right_inj _).1 (hsplit ▸ hheard)
  rw [hsplit]
  exact .described ((tagsDecide_first arn p.label hrest hlast).append
    (unmarked hleads))

/-- Where a lookup stands it has to do so with the answers that it gets. -/
theorem Stands.consults (h : Stands arn cancelled x)
    (hlinked : PagesLinked (·.nextToken) tags)
    (hheard : x.heard <+: .inl described :: tags.map .inr) :
    ∃ n o, Concludes arn tags described n o ∧
      Consults arn tags n o cancelled x := by
  cases h with
  | describing htask hasked hnone =>
    obtain ⟨n, o, hends⟩ := exists_concludes arn hlinked described
    refine ⟨n, o, hends, ?_, ?_, ?_, ?_, ?_⟩ <;>
      simp [htask, hasked, hnone, calls]
  | @undescribed o hno htask hasked hone =>
    rw [hone] at hheard
    obtain ⟨hsame, _⟩ := List.cons_prefix_cons.1 hheard
    obtain rfl := Sum.inl.inj hsame
    refine ⟨0, _, .undescribed hno, ?_, ?_, ?_, ?_, ?_⟩ <;>
      simp [htask, hasked, hone, calls]
  | @unread p hcancelled htask hasked hone =>
    rw [hone] at hheard
    obtain ⟨hsame, _⟩ := List.cons_prefix_cons.1 hheard
    obtain rfl := Sum.inl.inj hsame
    obtain ⟨n, o, hends, hpos⟩ := @exists_concludes_after _ arn p [] hlinked
      List.nil_prefix (by simp)
    refine ⟨n, o, hends, ?_, ?_, ?_, ?_, ?_⟩ <;>
      simp [htask, hasked, hone, calls, hcancelled]
    omega
  | @reading p call pages hleads htask hasked hmany =>
    obtain ⟨rfl, hpages⟩ := answersOn_prefix (hmany ▸ hheard)
    obtain ⟨n, o, hends, hlt⟩ :=
      exists_concludes_after arn hlinked hpages hleads
    have hlength : x.heard.length = pages.length + 1 := by
      simp [hmany, length_answersOn]
    refine ⟨n, o, hends, ?_, ?_, ?_, ?_, ?_⟩
    · rw [hasked]
      exact calls_prefix hpages (by rwa [List.length_map])
    · simp [hasked, length_calls, hlength, htask]
    · intro hall
      omega
    · simp [htask]
    · simp [htask]
  | @decided p pages answer hleads hlast htask hasked hmany =>
    obtain ⟨rfl, hall⟩ := answersOn_prefix (hmany ▸ hheard)
    have hlength : x.heard.length = pages.length + 2 := by
      simp [hmany, length_answersOn]
    refine ⟨_, _, concludes_last arn hlinked hall hleads hlast, ?_,
      ?_, ?_, ?_, ?_⟩
    · rw [hasked]
      exact calls_prefix ((List.prefix_append _ _).trans hall) (by simp)
    · simp [hasked, length_calls, hlength, htask]
    · exact fun _ => htask
    · exact fun _ _ => hlength
    · exact fun _ _ hless => absurd hlength hless
  | @stopped p pages page hcancelled hleads htask hasked hmany =>
    obtain ⟨rfl, hall⟩ := answersOn_prefix (hmany ▸ hheard)
    obtain ⟨n, o, hends, hlt⟩ :=
      @exists_concludes_after _ arn p (pages ++ [page])
      hlinked (by simpa using hall) hleads
    rw [List.length_append, List.length_singleton] at hlt
    have hlength : x.heard.length = pages.length + 2 := by
      simp [hmany, length_answersOn]
    refine ⟨n, o, hends, ?_, ?_, ?_, ?_, ?_⟩
    · rw [hasked]
      exact calls_prefix ((List.prefix_append _ _).trans hall)
        (by rw [List.length_map]; omega)
    · simp [hasked, length_calls, hlength, htask]
    · intro hdecided
      omega
    · simp [hcancelled]
    · intro o' ho' _
      rw [htask] at ho'
      exact (Sum.inr.inj ho').symm

/-! ## Lookups by themselves -/

/-- A lookup by itself. -/
abbrev Alone := Solo DirectoryWorld SetLookup (Outcome EnrichedItem)

variable {d : Directory} {t u : Alone}

/-- A lookup waits for its call. -/
theorem waitsOn (d : Directory) (credentials : Option Handle) :
    Solo.WaitsOn (d.looking credentials) stage where
  ready_eq w s task := ready_eq d credentials w s task
  due_eq w s task := due_eq d credentials w s task

/-- A lookup that goes on holds the retrieval of its call. -/
theorem Goes.holds {p p' : PlannedCache} {m : Moment} {task task' : SetLookup}
    (h : Goes d credentials p m task p' task')
    (hready : task.stage.ready p m = true) (hp : task.stage.Holds p) :
    task'.stage.Holds p' := by
  cases h with
  | call _ hgoes => exact hgoes.holds hready hp
  | next hover hscene _ hbegun =>
    rw [hscene, hbegun]
    exact Call.Stage.holds_begun (hover.free hp)

/-- A lookup by itself is on its task, or has ended as its calls decide. -/
structure Underway (d : Directory) (credentials : Option Handle) (arn : String)
    (tags : List (Outcome TagPage)) (t : Alone) : Prop where
  onTask : ∀ task, t.task = .inl task → OnTask d credentials arn tags task
  holds : credentials.isSome = true → ∀ task, t.task = .inl task →
    task.stage.Holds t.world.scene
  ended : ∀ o, t.task = .inr o → Ends credentials (d.verdict arn tags) o

/-- What is left of a lookup by itself, and its end. -/
noncomputable def leftAlone (d : Directory) (t : Alone) : Nat :=
  t.task.elim (fun task => task.left d t.world.scene t.moment + 1) fun _ => 0

/-- A turn of a lookup by itself leaves less to do. -/
theorem Underway.turn {task : SetLookup} (h : Underway d credentials arn tags t)
    (htags : d.Tags arn tags) (htask : t.task = .inl task)
    (hready : task.stage.ready t.world.scene t.moment = true) :
    Underway d credentials arn tags (t.step (d.looking credentials)) ∧
      leftAlone d (t.step (d.looking credentials)) < leftAlone d t := by
  have heffect := effect_turn (h.onTask task htask) htags t.world t.situation
  rcases hturn : d.lookupTurn credentials t.world t.situation task with
    ⟨w, turned⟩
  rw [hturn] at heffect
  have hlooking : (d.looking credentials).turn t.world t.situation task =
      (w, turned) := hturn
  cases heffect with
  | @goOn w task' hon hgoes =>
    have hstep : t.step (d.looking credentials) =
        { t with world := w, task := .inl task' } := by
      simp [Solo.step, htask, hlooking]
    have hless : task'.left d w.scene t.moment <
        task.left d t.world.scene t.moment :=
      hgoes.left_lt hready
    rw [hstep]
    refine ⟨⟨fun k hk => ?_, fun hsome k hk => ?_, fun o ho => by cases ho⟩, ?_⟩
    · exact Sum.inl.inj hk ▸ hon
    · exact Sum.inl.inj hk ▸ hgoes.holds hready (h.holds hsome task htask)
    · simp only [leftAlone, htask, Sum.elim_inl]
      omega
  | @done o hover ho =>
    have hstep : t.step (d.looking credentials) =
        { t with task := .inr o } := by
      simp [Solo.step, htask, hlooking]
    rw [hstep]
    refine ⟨⟨fun k hk => ?_, fun _ k hk => ?_, fun o' ho' => ?_⟩, ?_⟩
    · cases hk
    · cases hk
    · obtain rfl := Sum.inr.inj ho'
      exact ho.resolve_right fun hcut => Bool.false_ne_true hcut.1
    · simp [leftAlone, htask]

/-- A lookup by itself comes to its end. -/
theorem winds (htags : d.Tags arn tags) (credentials : Option Handle) :
    (Solo.play (d.looking credentials)).Winds (Underway d credentials arn tags)
      (leftAlone d) := by
  have hstep {t u : Alone} (h : Underway d credentials arn tags t)
      (hstep : (Solo.play (d.looking credentials)).Step t u) :
      Underway d credentials arn tags u ∧ leftAlone d u < leftAlone d t := by
    obtain ⟨task, htask, ⟨hready, rfl⟩ | ⟨unit, hready, hdue, rfl⟩⟩ :=
      (waitsOn d credentials).step_cases hstep
    · exact h.turn htags htask hready
    · have hless := Call.Stage.left_lt_of_due hready hdue
      refine ⟨⟨h.onTask, h.holds, h.ended⟩, ?_⟩
      simp only [leftAlone, left, htask, Sum.elim_inl]
      omega
  refine ⟨fun t u h hgoes => (hstep h hgoes).1, fun t u h _ hgoes =>
    (hstep h hgoes).2, fun t h hunder => ?_⟩
  rcases htask : t.task with task | o
  · exact (waitsOn d credentials).exists_step htask fun i hi =>
      h.holds ((h.onTask task htask).needs hi) task htask
  · simp [Solo.play, htask] at hunder

/-- Before its first turn a lookup describes its permission set. -/
theorem underway_start (d : Directory) (arn : String)
    (tags : List (Outcome TagPage)) {world : DirectoryWorld}
    (hidle : credentials.isSome = true → world.scene.Idle) :
    Underway d credentials arn tags
      { world := world, task := .inl ((d.remote credentials).lookup arn) } where
  onTask task htask := Sum.inl.inj htask ▸ onTask_begun
  holds hsome task htask :=
    Sum.inl.inj htask ▸ Call.Stage.holds_begun
      ((hidle hsome).supplied fun _ => id)
  ended o ho := by cases ho

/-- A lookup by itself ends as its calls decide. -/
theorem run_alone (htags : d.Tags arn tags) {world : DirectoryWorld}
    (hidle : credentials.isSome = true → world.scene.Idle) :
    ∃ bound, ∀ steps, bound ≤ steps → ∃ o,
      (Solo.run (d.looking credentials) steps world
          ((d.remote credentials).lookup arn)).task =
        .inr o ∧ Ends credentials (d.verdict arn tags) o := by
  let first : Alone :=
    { world := world, task := .inl ((d.remote credentials).lookup arn) }
  have hfirst : Underway d credentials arn tags first :=
    underway_start d arn tags hidle
  have hwinds := winds htags credentials
  refine ⟨leftAlone d first, fun steps hle => ?_⟩
  have hover : (Solo.run (d.looking credentials) steps world
      ((d.remote credentials).lookup arn)).task.isRight = true :=
    hwinds.run_isOver hfirst hle
  have hlast :=
    (Play.reaches_run (Solo.play (d.looking credentials)) steps []
      first).invariant
    hfirst hwinds.keeps
  obtain ⟨o, ho⟩ := Sum.isRight_iff.1 hover
  exact ⟨o, ho, hlast.ended o ho⟩

/-! ## The whole lookup -/

/-- A lookup describes its permission set, and reads the tags of one that is
described page by page, the first one without a token and each other one with
the token of the page before.  It makes these calls up to the one that decides,
and none once it is cancelled; unless it is, it ends with the answer that
decides and with no other.  It then accepts the permission set exactly if some
page has the tag and every page before that one came.  By itself over planned
answers it comes to that end. -/
theorem managed_lookup :
    (∀ (credentials : Option Handle) (d : Directory) (arn : String)
      (turns : List Surroundings) (described : Outcome PermissionSet)
      (tags : List (Outcome TagPage)), PagesLinked (·.nextToken) tags →
      (talk credentials d arn turns).heard <+: .inl described :: tags.map .inr →
        ∃ n o, Concludes arn tags described n o ∧
          o = verdict arn described tags ∧
          Consults arn tags n o (turns.any (·.situation.cancelled))
            (talk credentials d arn turns) ∧
          ((∃ label, o = .value (.accepted arn label arn)) ↔
            described.isValue = true ∧ ∃ before page later,
              tags = before ++ .value page :: later ∧ page.marksManaged = true ∧
                ∀ b ∈ before, b.isValue = true) ∧
          ∀ later : List Surroundings,
            (∀ e ∈ later, e.situation.cancelled = true) →
            (talk credentials d arn (turns ++ later)).asked =
              (talk credentials d arn turns).asked) ∧
    ∀ (credentials : Option Handle) (d : Directory) (arn : String)
      (tags : List (Outcome TagPage)) (world : DirectoryWorld),
        d.Tags arn tags →
      (credentials.isSome = true → world.scene.Idle) →
        ∃ bound, ∀ steps, bound ≤ steps → ∃ o,
          (Solo.run (d.looking credentials) steps world
            ((d.remote credentials).lookup arn)).task = .inr o ∧
          Ends credentials (d.verdict arn tags) o := by
  refine ⟨fun credentials d arn turns described tags hlinked hheard => ?_,
    fun credentials d arn tags world htags hidle => run_alone htags hidle⟩
  obtain ⟨n, o, hends, hconsults⟩ :=
    (stands_talk credentials d arn turns).consults hlinked hheard
  refine ⟨n, o, hends, hends.eq_verdict, hconsults, hends.accepted_iff,
    fun later hcut => ?_⟩
  rw [talk, Inquirer.after_append]
  exact asked_after_of_cancelled hcut

/-- A permission set whose second page of tags has the tag.  The third one is
throttled.  Each page names the same token for the next, so the directory has to
remember how many it has given. -/
def taggedSecond : Directory :=
  { ({ descriptions := [("a", { content := ⟨some "Admin", none⟩ })] } :
      PlannedDirectory).directory with
    tags := fun _ k _ => .ok <|
      match k with
      | 0 => { content := ⟨[], some "more"⟩ }
      | 1 => { content := ⟨[⟨Tag.managedKey, none⟩], some "more"⟩ }
      | _ => { content := ⟨[], none⟩, error := some "throttled" } }

/-- The answers on its tags. -/
def taggedSecondTags : List (Outcome TagPage) :=
  [.value ⟨[], some "more"⟩, .value ⟨[⟨Tag.managedKey, none⟩], some "more"⟩,
    .failed ⟨"throttled", []⟩]

/-- A world in which no call was made. -/
def quietWorld : DirectoryWorld where
  scene := { cache := .unused Cache.plainRequest [.epoch], plan := [] }

/-- Its lookup takes two turns for each call. -/
def taggedSecondTurns : List Surroundings :=
  List.replicate 6 ⟨taggedSecond, quietWorld, ⟨{}, false⟩⟩

theorem managed_lookup_taggedSecond :
    (talk none taggedSecond "a" taggedSecondTurns).heard <+:
        .inl (.value ⟨some "Admin", none⟩) :: taggedSecondTags.map .inr ∧
      (talk none taggedSecond "a" taggedSecondTurns).asked =
        [.describe "a", .tags "a" none, .tags "a" (some "more")] ∧
      (talk none taggedSecond "a" taggedSecondTurns).task =
        .inr (.value (.accepted "a" "Admin" "a")) ∧
      ∃ bound, ∀ steps, bound ≤ steps →
        (Solo.run (taggedSecond.looking none) steps quietWorld
          ((taggedSecond.remote none).lookup "a")).task =
            .inr (.value (.accepted "a" "Admin" "a")) := by
  obtain ⟨hdialogues, halone⟩ := managed_lookup
  have hchain : taggedSecond.Tags "a" taggedSecondTags :=
    .more rfl rfl (.more rfl rfl (.last fun _ hpage => (by cases hpage)))
  have hheard : (talk none taggedSecond "a" taggedSecondTurns).heard <+:
      .inl (.value ⟨some "Admin", none⟩) :: taggedSecondTags.map .inr :=
        ⟨[_], rfl⟩
  have hverdict : verdict "a" (.value ⟨some "Admin", none⟩) taggedSecondTags =
      .value (.accepted "a" "Admin" "a") := rfl
  obtain ⟨n, o, _, rfl, hconsults, _, _⟩ :=
    hdialogues none taggedSecond "a" taggedSecondTurns _ _
      hchain.pagesLinked hheard
  obtain rfl : 2 = n := Nat.succ.inj (hconsults.uncut rfl rfl)
  refine ⟨hheard, hconsults.asked.eq_of_length hconsults.count,
    hconsults.decided rfl, ?_⟩
  obtain ⟨bound, hends⟩ :=
    halone none taggedSecond "a" taggedSecondTags quietWorld hchain
    fun hneeds => by cases hneeds
  refine ⟨bound, fun steps hle => ?_⟩
  obtain ⟨o, ho, hplanned⟩ := hends steps hle
  rw [ho, hplanned.eq_planned rfl]
  rfl

end SetLookup

end CloudAccess
