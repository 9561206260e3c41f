import TypedConfig.Proofs.Outcomes
import TypedConfig.Proofs.WellFormed
import TypedConfig.Roster.Exchange

/-!
# What notifications tell

Someone who sees nothing but notifications keeps for each path what the last one said
(`lastNotified?`). Events keep such a listener right about a path (`Tells`) if the last notification
carries the value that the option of the path has afterwards, and null where there is none, and if
no notification means that nothing about the path has changed.

Each part of a registry speaks of its own paths only. `Reports` says so together with `Tells`, and
gives the frame rule: what a part reports is right in the whole, as long as the rest has other paths
(`Reports.frame`, and `Reports.flatMap` for many parts one after the other). So options, sections
and files are dealt with one inside the other, each by one case for each primitive change.
-/

namespace TypedConfig

/-! ## The last notification -/

/-- What an event publishes for a path: a value, or null. -/
def Event.published? (path : String) : Event → Option (Option String)
  | .notified p value => if p = path then some value else none
  | _ => none

/-- What the last notification for a path carries. -/
def lastNotified? (path : String) (es : List Event) : Option (Option String) :=
  (es.filterMap (Event.published? path)).getLast?

/-- Later notifications count, and earlier ones where there are none. -/
theorem lastNotified?_append (path : String) (es fs : List Event) :
    lastNotified? path (es ++ fs) = (lastNotified? path fs).or (lastNotified? path es) := by
  unfold lastNotified?
  rw [List.filterMap_append, List.getLast?_append]

/-- A notification alone counts for its own path. -/
theorem lastNotified?_singleton (path p : String) (value : Option String) :
    lastNotified? path [.notified p value] = if p = path then some value else none := by
  simp only [lastNotified?, List.filterMap_cons, Event.published?]
  split <;> simp_all

/-- Where no value is published, no notification is the last one. -/
theorem Silent.lastNotified? {es : List Event} (h : Silent es) (path : String) :
    lastNotified? path es = none := by
  have hnone : es.filterMap (Event.published? path) = [] := by
    refine List.filterMap_eq_nil_iff.2 fun x hx => ?_
    have hsilent := h x hx
    cases x with
    | notified => cases hsilent
    | _ => rfl
  unfold TypedConfig.lastNotified?
  rw [hnone]
  rfl

/-- Only notifications count. -/
theorem lastNotified?_filter (path : String) (es : List Event) :
    lastNotified? path (es.filter Event.isNotification) = lastNotified? path es := by
  unfold lastNotified?
  rw [List.filterMap_filter]
  congr 2
  funext x
  cases x <;> rfl

/-! ## What is to be told -/

/-- An option of a path has a value with this text. -/
def Shows (entries : List Entry) (path : String) (text : Option String) : Prop :=
  ∃ e ∈ entries, e.fullName = path ∧ e.valueText = text

/-- What two lists of options show is what one of them shows. -/
theorem shows_append {xs ys : List Entry} {path : String} {text : Option String} :
    Shows (xs ++ ys) path text ↔ Shows xs path text ∨ Shows ys path text := by
  simp only [Shows, List.mem_append, or_and_right, exists_or]

/-- What options show does not depend on their order. -/
theorem shows_congr {xs ys : List Entry} (h : xs.Perm ys) {path : String} {text : Option String} :
    Shows xs path text ↔ Shows ys path text := by
  simp only [Shows, h.mem_iff]

/-- Events keep a listener right about a path, when the first options become the second. -/
structure Tells (path : String) (es : List Event) (before after : List Entry) : Prop where
  /-- A last notification carries what is there, and null if nothing is. -/
  told : ∀ value, lastNotified? path es = some value →
    (∀ text, Shows after path text → text = value) ∧
      ((∀ text, ¬Shows after path text) → value = none)
  /-- Without one, what is there was there before. -/
  untold : lastNotified? path es = none → ∀ text, Shows after path text ↔ Shows before path text

/-- A listener that is kept right twice is right at the end. -/
theorem Tells.trans {path : String} {es fs : List Event} {xs ys zs : List Entry}
    (h : Tells path es xs ys) (h' : Tells path fs ys zs) : Tells path (es ++ fs) xs zs := by
  cases hlast : lastNotified? path fs with
  | some value =>
    have hboth : lastNotified? path (es ++ fs) = some value := by
      rw [lastNotified?_append, hlast]
      rfl
    constructor
    · intro v hv
      obtain rfl := Option.some.inj (hboth.symm.trans hv)
      exact h'.told value hlast
    · intro hnone
      rw [hboth] at hnone
      cases hnone
  | none =>
    have hboth : lastNotified? path (es ++ fs) = lastNotified? path es := by
      rw [lastNotified?_append, hlast]
      rfl
    have hsame := h'.untold hlast
    constructor
    · intro v hv
      obtain ⟨hvalue, hgone⟩ := h.told v (hboth ▸ hv)
      exact ⟨fun text htext => hvalue text ((hsame text).1 htext),
        fun hnothing => hgone fun text htext => hnothing text ((hsame text).2 htext)⟩
    · intro hnone text
      exact (hsame text).trans (h.untold (hboth ▸ hnone) text)

/-! ## Reports -/

/-- Events of a part that has the paths `mine`: they keep a listener right about all paths, and they
publish nothing for paths that the part does not have. -/
structure Reports (mine : String → Prop) (es : List Event) (before after : List Entry) : Prop where
  mine_before : ∀ e ∈ before, mine e.fullName
  mine_after : ∀ e ∈ after, mine e.fullName
  only : ∀ path value, lastNotified? path es = some value → mine path
  tells : ∀ path, Tells path es before after

namespace Reports

variable {mine : String → Prop} {es fs : List Event} {xs ys zs : List Entry}

/-- Without a notification, options may be put in another order. -/
theorem silent (h : Silent es) (hperm : xs.Perm ys) (hxs : ∀ e ∈ xs, mine e.fullName) :
    Reports mine es xs ys where
  mine_before := hxs
  mine_after e he := hxs e (hperm.mem_iff.2 he)
  only path value hvalue := by
    rw [h.lastNotified?] at hvalue
    cases hvalue
  tells path := by
    constructor
    · intro value hvalue
      rw [h.lastNotified?] at hvalue
      cases hvalue
    · exact fun _ text => shows_congr hperm.symm

/-- Reports of two parts are one report. -/
theorem trans (h : Reports mine es xs ys) (h' : Reports mine fs ys zs) :
    Reports mine (es ++ fs) xs zs where
  mine_before := h.mine_before
  mine_after := h'.mine_after
  only path value hvalue := by
    rw [lastNotified?_append] at hvalue
    cases hlast : lastNotified? path fs with
    | some w => exact h'.only path w hlast
    | none =>
      rw [hlast] at hvalue
      exact h.only path value hvalue
  tells path := (h.tells path).trans (h'.tells path)

/-- A part may be said to have more paths. -/
theorem mono {mine' : String → Prop} (h : Reports mine es xs ys)
    (hmine : ∀ path, mine path → mine' path) : Reports mine' es xs ys where
  mine_before e he := hmine _ (h.mine_before e he)
  mine_after e he := hmine _ (h.mine_after e he)
  only path value hvalue := hmine _ (h.only path value hvalue)
  tells := h.tells

/-- The frame rule: what a part reports is right in the whole, where no other option has a path of
the part. -/
theorem frame {mine' : String → Prop} {xs' ys' rest : List Entry} (h : Reports mine es xs ys)
    (hmine : ∀ path, mine path → mine' path) (hxs : xs'.Perm (xs ++ rest))
    (hys : ys'.Perm (ys ++ rest)) (hrest : ∀ e ∈ rest, mine' e.fullName ∧ ¬mine e.fullName) :
    Reports mine' es xs' ys' := by
  have hall {part : List Entry} (hpart : ∀ e ∈ part, mine e.fullName) :
      ∀ e ∈ part ++ rest, mine' e.fullName := by
    intro e he
    rcases List.mem_append.1 he with he | he
    · exact hmine _ (hpart e he)
    · exact (hrest e he).1
  refine ⟨fun e he => hall h.mine_before e (hxs.mem_iff.1 he),
    fun e he => hall h.mine_after e (hys.mem_iff.1 he),
    fun path value hvalue => hmine _ (h.only path value hvalue), fun path => ?_⟩
  constructor
  · -- A path with a notification is one of the part, so nothing else shows there.
    intro value hvalue
    have hpath : mine path := h.only path value hvalue
    have hpart (text : Option String) : Shows ys' path text ↔ Shows ys path text := by
      rw [shows_congr hys, shows_append]
      refine or_iff_left fun ⟨e, he, hname, _⟩ => (hrest e he).2 ?_
      rw [hname]
      exact hpath
    obtain ⟨hshown, hgone⟩ := (h.tells path).told value hvalue
    exact ⟨fun text htext => hshown text ((hpart text).1 htext),
      fun hnothing => hgone fun text htext => hnothing text ((hpart text).2 htext)⟩
  · intro hnone text
    rw [shows_congr hys, shows_congr hxs, shows_append, shows_append,
      (h.tells path).untold hnone text]

/-- Parts that follow one another, none of which has a path of another one, report as a whole. -/
theorem flatMap {α : Type} {parts : List α} {owns : α → String → Prop} {events : α → List Event}
    {old new : α → List Entry}
    (h : ∀ x ∈ parts, Reports (owns x) (events x) (old x) (new x))
    (hdisjoint : parts.Pairwise fun x y => ∀ path, owns x path → ¬owns y path) :
    Reports (fun path => ∃ x ∈ parts, owns x path) (parts.flatMap events) (parts.flatMap old)
      (parts.flatMap new) := by
  induction parts with
  | nil =>
    simp only [List.flatMap_nil]
    exact silent silent_nil (List.Perm.refl []) (List.forall_mem_nil _)
  | cons x xs ih =>
    obtain ⟨hx, hdisjoint⟩ := List.pairwise_cons.1 hdisjoint
    obtain ⟨hfirst, h⟩ := List.forall_mem_cons.1 h
    have hothers := ih h hdisjoint
    simp only [List.flatMap_cons]
    have hhead : ∀ path, owns x path → ∃ y ∈ x :: xs, owns y path :=
      fun path hpath => ⟨x, List.mem_cons_self .., hpath⟩
    have htail : ∀ path, (∃ y ∈ xs, owns y path) → ∃ y ∈ x :: xs, owns y path :=
      fun path ⟨y, hy, hpath⟩ => ⟨y, List.mem_cons_of_mem _ hy, hpath⟩
    -- First the others wait in their old state, then the first part rests in its new one.
    have hstart : Reports (fun path => ∃ y ∈ x :: xs, owns y path) (events x)
        (old x ++ xs.flatMap old) (new x ++ xs.flatMap old) := by
      refine hfirst.frame hhead (List.Perm.refl _) (List.Perm.refl _) fun e he => ?_
      obtain ⟨y, hy, hpath⟩ := hothers.mine_before e he
      exact ⟨htail _ ⟨y, hy, hpath⟩, fun hmine => hx y hy _ hmine hpath⟩
    have hend : Reports (fun path => ∃ y ∈ x :: xs, owns y path) (xs.flatMap events)
        (new x ++ xs.flatMap old) (new x ++ xs.flatMap new) := by
      refine hothers.frame htail List.perm_append_comm List.perm_append_comm fun e he => ?_
      have hpath := hfirst.mine_after e he
      exact ⟨hhead _ hpath, fun ⟨y, hy, hother⟩ => hx y hy _ hpath hother⟩
    exact hstart.trans hend

/-- One notification keeps a listener right about a path, if it carries what is there afterwards. -/
theorem ofLast {path : String} {value : Option String} (hxs : ∀ e ∈ xs, e.fullName = path)
    (hys : ∀ e ∈ ys, e.fullName = path ∧ e.valueText = value) (hnil : ys = [] → value = none)
    (hlast : ∀ p, lastNotified? p es = if path = p then some value else none) :
    Reports (· = path) es xs ys where
  mine_before := hxs
  mine_after e he := (hys e he).1
  only p v hv := by
    rw [hlast] at hv
    split at hv
    · next h => exact h.symm
    · cases hv
  tells p := by
    by_cases hp : path = p
    · have htold : lastNotified? p es = some value := by rw [hlast, if_pos hp]
      constructor
      · intro v hv
        obtain rfl := Option.some.inj (htold.symm.trans hv)
        refine ⟨fun text ⟨e, he, _, htext⟩ => htext ▸ (hys e he).2, fun hnothing => hnil ?_⟩
        refine List.eq_nil_iff_forall_not_mem.2 fun e he => hnothing value ?_
        exact ⟨e, he, (hys e he).1.trans hp, (hys e he).2⟩
      · intro hnone
        rw [htold] at hnone
        cases hnone
    · have hquiet : lastNotified? p es = none := by rw [hlast, if_neg hp]
      constructor
      · intro v hv
        rw [hquiet] at hv
        cases hv
      · -- No option of the part shows at another path.
        intro _ text
        exact iff_of_false (fun ⟨e, he, hname, _⟩ => hp ((hys e he).1.symm.trans hname))
          (fun ⟨e, he, hname, _⟩ => hp ((hxs e he).symm.trans hname))

end Reports

/-! ## Options -/

namespace Entry

/-- An option that is put in place is published with its value. -/
theorem reports_notification (e : Entry) : Reports (· = e.fullName) [e.notification] [] [e] :=
  .ofLast (List.forall_mem_nil _) (List.forall_mem_singleton.2 ⟨rfl, rfl⟩)
    (fun h => absurd h (List.cons_ne_nil _ _))
    fun p => lastNotified?_singleton p e.fullName e.valueText

/-- An option that is removed is published as null, after its owner was told. -/
theorem reports_removalEvents (e : Entry) : Reports (· = e.fullName) e.removalEvents [e] [] := by
  refine .ofLast (List.forall_mem_singleton.2 rfl) (List.forall_mem_nil _) (fun _ => rfl)
    fun p => ?_
  have htold : Silent (if e.tellsRemoval then [.deleted e.fullName e.valueText] else []) := by
    split
    · exact silent_singleton rfl
    · exact silent_nil
  unfold removalEvents
  rw [lastNotified?_append, htold.lastNotified? p, lastNotified?_singleton, Option.or_none]

/-- Asking the check publishes nothing. -/
theorem silent_inquiries (e : Entry) (m : Mutation) : Silent (e.inquiries m) := by
  unfold inquiries
  split
  · unfold inquiry
    split
    · exact silent_singleton rfl
    · exact silent_nil
  · exact silent_nil

/-- A mutation publishes the value that it leads to, or leaves the option as it is. -/
theorem reports_mutate (e : Entry) (m : Mutation) :
    Reports (· = e.fullName) (e.mutate m).events [e] [(e.mutate m).result.1] := by
  have hsettles := settles_mutate e m
  by_cases hchanged : (e.mutate m).result.2 = .ok .changed
  · have hname : (e.mutate m).result.1.fullName = e.fullName := by
      rw [hsettles.changed_entry hchanged, fullName_put]
    refine .ofLast (List.forall_mem_singleton.2 rfl) (List.forall_mem_singleton.2 ⟨hname, rfl⟩)
      (fun h => absurd h (List.cons_ne_nil _ _)) fun p => ?_
    have htold : Silent (e.inquiries m ++ if e.tellsChange then
        [.changed e.fullName (e.mutate m).result.1.valueText] else []) := by
      refine (silent_inquiries e m).append ?_
      split
      · exact silent_singleton rfl
      · exact silent_nil
    rw [hsettles.changed_events hchanged, lastNotified?_append, htold.lastNotified? p,
      lastNotified?_singleton, Option.or_none]
  · rw [hsettles.unchanged_entry hchanged, hsettles.unchanged_events hchanged]
    exact .silent (silent_inquiries e m) (.refl _) (List.forall_mem_singleton.2 rfl)

/-- An option keeps its full name. -/
theorem Evolves.fullName_eq {e e' : Entry} {es : List Event} (h : e.Evolves es e') :
    e'.fullName = e.fullName := by
  obtain ⟨_, _, _, _, rfl⟩ := h.frame
  rfl

/-- A difference that shows nowhere need not be reported. -/
theorem reports_unseen {e e' : Entry} (hname : e'.fullName = e.fullName)
    (hvalue : e'.valueText = e.valueText) : Reports (· = e.fullName) [] [e] [e'] where
  mine_before := List.forall_mem_singleton.2 rfl
  mine_after := List.forall_mem_singleton.2 hname
  only _ _ hvalue := by cases hvalue
  tells path := by
    constructor
    · intro _ hvalue
      cases hvalue
    · intro _ text
      simp only [Shows, List.mem_singleton, exists_eq_left, hname, hvalue]

/-- Whatever becomes of an option, a listener is right about it. -/
theorem Evolves.reports {e e' : Entry} {es : List Event} (h : e.Evolves es e') :
    Reports (· = e.fullName) es [e] [e'] := by
  induction h with
  | silent e h => exact .silent h (.refl _) (List.forall_mem_singleton.2 rfl)
  | mutate e m => exact reports_mutate e m
  | mark e loaded => exact reports_unseen rfl rfl
  | keepParent e knownParent => exact reports_unseen rfl rfl
  | trans h _ ih ih' =>
    rw [h.fullName_eq] at ih'
    exact ih.trans ih'

end Entry

/-! ## Sections -/

namespace Body

/-- The paths of a section, whatever its options. -/
def Owns (b : Body) (path : String) : Prop :=
  ∃ option, path = b.path option

/-- The path of an option is made of its section's names and its own. -/
theorem WellFormed.fullName_eq {b : Body} (h : b.WellFormed) {e : Entry} (he : e ∈ b.entries) :
    e.fullName = b.path e.name := by
  have hentry := h.entries e he
  show Address.path ⟨e.file, e.sectionName, e.name⟩ = _
  rw [hentry.file_eq, hentry.sectionName_eq]
  rfl

/-- The paths of its options are those of the section. -/
theorem WellFormed.owns {b : Body} (h : b.WellFormed) {e : Entry} (he : e ∈ b.entries) :
    b.Owns e.fullName :=
  ⟨e.name, h.fullName_eq he⟩

/-- The path of an option is that of no other name. -/
theorem WellFormed.fullName_ne {b : Body} (h : b.WellFormed) {e : Entry} (he : e ∈ b.entries)
    {name : String} (hne : e.name ≠ name) : e.fullName ≠ b.path name := by
  rw [h.fullName_eq he]
  exact fun hpath => hne (Address.option_eq_of_path_eq hpath)

/-- What is reported of the option of a name is right in the section. -/
theorem WellFormed.reports_option {b : Body} (h : b.WellFormed) {name : String} {es : List Event}
    {old new rest entries : List Entry} (hreports : Reports (· = b.path name) es old new)
    (hold : b.entries.Perm (old ++ rest)) (hnew : entries.Perm (new ++ rest))
    (hrest : ∀ e ∈ rest, e.name ≠ name) : Reports b.Owns es b.entries entries := by
  refine hreports.frame (fun path hpath => ⟨name, hpath⟩) hold hnew fun e he => ?_
  have hmem : e ∈ b.entries := hold.mem_iff.2 (List.mem_append_right _ he)
  exact ⟨h.owns hmem, h.fullName_ne hmem (hrest e he)⟩

/-- What is reported of all options, from the first to the last, is right in the section. -/
theorem WellFormed.reports_each {b : Body} (h : b.WellFormed) {events : Entry → List Event}
    {new : Entry → List Entry}
    (hreports : ∀ e ∈ b.entries, Reports (· = e.fullName) (events e) [e] (new e)) :
    Reports b.Owns (b.entries.flatMap events) b.entries (b.entries.flatMap new) := by
  have hdisjoint : b.entries.Pairwise fun e f =>
      ∀ path, path = e.fullName → ¬path = f.fullName := by
    refine h.sorted.imp_of_mem fun he hf hlt path hpath hpath' => ?_
    refine h.fullName_ne he (Roster.ne_of_lt hlt) ?_
    rw [← hpath, hpath', h.fullName_eq hf]
    rfl
  have hall := Reports.flatMap hreports hdisjoint
  rw [List.flatMap_singleton'] at hall
  refine hall.mono fun path ⟨e, he, hpath⟩ => ?_
  rw [hpath]
  exact h.owns he

/-- Whatever becomes of a section, a listener is right about its options. -/
theorem Evolves.reports {b b' : Body} {es : List Event} (h : b.Evolves es b') (hb : b.WellFormed) :
    Reports b.Owns es b.entries b'.entries := by
  have others {b : Body} (hb : b.WellFormed) {name : String} :
      ∀ e ∈ Roster.erase name b.entries, e.name ≠ name :=
    Roster.find?_eq_none.1 (hb.sorted.find?_erase_self name)
  induction h with
  | silent b h => exact .silent h (.refl _) fun e he => hb.owns he
  | define b d =>
    unfold Body.define
    split
    · exact .silent silent_nil (.refl _) fun e he => hb.owns he
    · next hnew =>
      split
      · exact .silent silent_nil (.refl _) fun e he => hb.owns he
      · next e he =>
        obtain ⟨hwell, hname⟩ := Entry.wellFormed_of_ofDefinition? he
        have hpath : e.fullName = b.path e.name := by
          show Address.path ⟨e.file, e.sectionName, e.name⟩ = _
          rw [hwell.file_eq, hwell.sectionName_eq]
          rfl
        have hfree : b.entry? e.name = none := by simpa [hname] using hnew
        have hreports := e.reports_notification
        rw [hpath] at hreports
        exact hb.reports_option hreports (.refl _) (Roster.perm_insert e b.entries)
          (Roster.find?_eq_none.1 hfree)
  | remove b name =>
    unfold Body.remove
    split
    · exact .silent silent_nil (.refl _) fun e he => hb.owns he
    · next e he =>
      obtain rfl := Roster.name_of_find?_eq_some he
      have hreports := e.reports_removalEvents
      rw [hb.fullName_eq (Roster.mem_of_find?_eq_some he)] at hreports
      -- The record that the option is gone publishes nothing.
      have hrecord : Silent ([.record .debug .engine ("Removed option " ++ e.fullName)] ++ []) :=
        (silent_singleton rfl).append silent_nil
      exact (hb.reports_option hreports (Roster.perm_erase he) (.refl _) (others hb)).trans
        (.silent hrecord (.refl _) fun f hf => hb.owns ((Roster.erase_sublist ..).subset hf))
  | clear b =>
    have hreports := hb.reports_each fun e _ => e.reports_removalEvents
    rw [List.flatMap_eq_nil_iff.2 fun _ _ => rfl] at hreports
    exact hreports.trans (.silent silent_nil (.refl _) (List.forall_mem_nil _))
  | change b he h =>
    obtain rfl := Roster.name_of_find?_eq_some he
    have hreports := h.reports
    rw [hb.fullName_eq (Roster.mem_of_find?_eq_some he)] at hreports
    exact hb.reports_option hreports (Roster.perm_erase he) (Roster.perm_replace he _) (others hb)
  | each b f h =>
    have hreports := hb.reports_each fun e _ => (h e).reports
    rw [← List.map_eq_flatMap, ← Traced.events_each, ← Traced.result_each] at hreports
    exact hreports
  | trans h _ ih ih' =>
    obtain ⟨_, rfl⟩ := h.frame
    exact (ih hb).trans (ih' (h.wellFormed hb))

end Body

end TypedConfig
