import TypedConfig.Proofs.Notifications.Registry

/-!
# Taking options away

Options go one by one, with their section, with their file or all together, and at an unset where a
user may remove them and no hook does it (`Teardown`). In each case exactly the options below the
node that is named are gone afterwards. For each of them its owner is told once, if it asked to be,
and is shown the last value; right after that null is published once under its full name. This goes
from option to option in the order of the names, and no other option is changed or mentioned
(`Registry.teardown_spec`).

The six ways are nested, so what is proved of one roster is lifted from a section's options to the
sections of a file and to the files (`Tears`).
-/

namespace TypedConfig

/-- A log record is for nobody in particular. -/
def Event.isRecord : Event → Bool
  | .record .. => true
  | _ => false

/-- The ways to take options away. -/
inductive Teardown where
  | removeOption (file sectionName option : String)
  | clearOptions (file sectionName : String)
  /-- An unset that is asked of the section. -/
  | unsetIn (file sectionName option : String)
  /-- An unset by path. -/
  | unsetOption (path : String)
  | removeSection (file sectionName : String)
  | removeFile (file : String)
  | removeFiles

namespace Teardown

/-- What a host asks for. -/
def operation : Teardown → Operation
  | .removeOption file sectionName option => .edit file sectionName (.remove option .finish)
  | .clearOptions file sectionName => .edit file sectionName (.clear (.finish (.ok ())))
  | .unsetIn file sectionName option => .unset file sectionName option
  | .unsetOption path => .unsetOption path
  | .removeSection file sectionName => .removeSection file sectionName
  | .removeFile file => .removeFile file
  | .removeFiles => .removeFiles

/-- Whether an address is at or below the node that is named. -/
def covers (a : Address) : Teardown → Bool
  | .removeOption file sectionName option | .unsetIn file sectionName option =>
    a = ⟨file, sectionName, option⟩
  | .unsetOption path => Address.ofPath? path = some a
  | .clearOptions file sectionName | .removeSection file sectionName =>
    a.file = file ∧ a.sectionName = sectionName
  | .removeFile file => a.file = file
  | .removeFiles => true

/-- Users may remove options of the section, if it is there, and no hook does it for them. -/
def Plain (r : Registry) (file sectionName : String) : Prop :=
  ∀ s, r.section? file sectionName = some s → s.canDelete = true ∧ s.hooks.delete = none

/-- An unset takes an option away where users may remove options and no hook does it for them. -/
def Applies (r : Registry) : Teardown → Prop
  | .unsetIn file sectionName _ => Plain r file sectionName
  | .unsetOption path => ∀ a, Address.ofPath? path = some a → Plain r a.file a.sectionName
  | _ => True

end Teardown

/-- Those of the options `before` that `p` picks are gone, and the others are there `after` as they
were. The events are those of the removals, in the order of the options, and records. -/
structure Tears (p : Entry → Bool) (before after : List Entry) (events : List Event) : Prop where
  rest : after = before.filter fun e => !p e
  told : ∃ records, (∀ x ∈ records, x.isRecord = true) ∧
    events = (before.filter p).flatMap Entry.removalEvents ++ records

/-! ## One list -/

namespace Tears

variable {p : Entry → Bool} {before after xs ys : List Entry} {es fs : List Event}

/-- Nothing is picked, and nothing happens. -/
theorem none (h : ∀ e ∈ xs, p e = false) : Tears p xs xs [] where
  rest := (List.filter_eq_self.2 fun e he => by rw [h e he]; rfl).symm
  told := by
    have hnil : xs.filter p = [] := List.filter_eq_nil_iff.2 fun e he => by simp [h e he]
    exact ⟨[], nofun, by rw [hnil]; rfl⟩

/-- All are picked and go. -/
theorem all (h : ∀ e ∈ xs, p e = true) : Tears p xs [] (xs.flatMap Entry.removalEvents) where
  rest := (List.filter_eq_nil_iff.2 fun e he => by simp [h e he]).symm
  told := ⟨[], nofun, by rw [List.filter_eq_self.2 h, List.append_nil]⟩

/-- Records may follow. -/
theorem log (h : Tears p xs ys es) (hrecords : ∀ x ∈ fs, x.isRecord = true) :
    Tears p xs ys (es ++ fs) where
  rest := h.rest
  told := by
    obtain ⟨records, hall, rfl⟩ := h.told
    refine ⟨records ++ fs, fun x hx => ?_, List.append_assoc ..⟩
    rcases List.mem_append.1 hx with hx | hx
    · exact hall x hx
    · exact hrecords x hx

/-- Nothing may follow. -/
theorem done (h : Tears p xs ys es) : Tears p xs ys (es ++ []) :=
  h.log nofun

/-- What is not picked may stand around. -/
theorem around (h : Tears p xs ys es) (hbefore : ∀ e ∈ before, p e = false)
    (hafter : ∀ e ∈ after, p e = false) :
    Tears p (before ++ (xs ++ after)) (before ++ (ys ++ after)) es where
  rest := by
    rw [List.filter_append, List.filter_append, ← h.rest, ← (none hbefore).rest,
      ← (none hafter).rest]
  told := by
    obtain ⟨records, hall, hevents⟩ := h.told
    have hnil {zs : List Entry} (hzs : ∀ e ∈ zs, p e = false) : zs.filter p = [] :=
      List.filter_eq_nil_iff.2 fun e he => by simp [hzs e he]
    refine ⟨records, hall, ?_⟩
    rw [List.filter_append, List.filter_append, hnil hbefore, hnil hafter, List.nil_append,
      List.append_nil, hevents]

/-! ## One roster -/

variable {α : Type} [Named α] {n : String} {x : α} {us : List α} {f : α → List Entry}

/-- Only the thing of a name holds what is picked, and it is not there. -/
theorem flatMap_none (hx : Roster.find? n us = .none)
    (hothers : ∀ u ∈ us, Named.name u ≠ n → ∀ e ∈ f u, p e = false) :
    Tears p (us.flatMap f) (us.flatMap f) [] := by
  refine none fun e he => ?_
  obtain ⟨u, hu, he⟩ := List.mem_flatMap.1 he
  exact hothers u hu (Roster.find?_eq_none.1 hx u hu) e he

/-- Only one thing of a sorted roster holds what is picked. -/
theorem flatMap_split {us vs : List α} (hsorted : Roster.Sorted (us ++ x :: vs))
    (hothers : ∀ u ∈ us ++ x :: vs, Named.name u ≠ Named.name x → ∀ e ∈ f u, p e = false)
    (h : Tears p (f x) ys es) :
    Tears p ((us ++ x :: vs).flatMap f) (us.flatMap f ++ (ys ++ vs.flatMap f)) es := by
  have hne := hsorted.name_ne_of_split
  rw [List.flatMap_append, List.flatMap_cons]
  refine h.around (fun e he => ?_) fun e he => ?_
  · obtain ⟨u, hu, he⟩ := List.mem_flatMap.1 he
    exact hothers u (List.mem_append_left _ hu) (hne u (List.mem_append_left _ hu)) e he
  · obtain ⟨u, hu, he⟩ := List.mem_flatMap.1 he
    exact hothers u (List.mem_append_right _ (List.mem_cons_of_mem _ hu))
      (hne u (List.mem_append_right _ hu)) e he

/-- Only the thing of a name holds what is picked, and it changes. -/
theorem flatMap_replace (hsorted : Roster.Sorted us) (hx : Roster.find? n us = some x)
    (hothers : ∀ u ∈ us, Named.name u ≠ n → ∀ e ∈ f u, p e = false) {y : α}
    (h : Tears p (f x) (f y) es) :
    Tears p (us.flatMap f) ((Roster.replace n y us).flatMap f) es := by
  obtain ⟨before, after, rfl, -, hreplace, -⟩ := Roster.exists_eq_append_of_find?_eq_some hx
  obtain rfl := Roster.name_of_find?_eq_some hx
  have hflat : (before ++ y :: after).flatMap f =
      before.flatMap f ++ (f y ++ after.flatMap f) := by
    rw [List.flatMap_append, List.flatMap_cons]
  rw [hreplace y, hflat]
  exact flatMap_split hsorted hothers h

/-- Only the thing of a name holds what is picked, and it goes with all that it holds. -/
theorem flatMap_erase (hsorted : Roster.Sorted us) (hx : Roster.find? n us = some x)
    (hothers : ∀ u ∈ us, Named.name u ≠ n → ∀ e ∈ f u, p e = false)
    (h : Tears p (f x) [] es) :
    Tears p (us.flatMap f) ((Roster.erase n us).flatMap f) es := by
  obtain ⟨before, after, rfl, -, -, herase⟩ := Roster.exists_eq_append_of_find?_eq_some hx
  obtain rfl := Roster.name_of_find?_eq_some hx
  have hflat : (before ++ after).flatMap f = before.flatMap f ++ ([] ++ after.flatMap f) :=
    List.flatMap_append
  rw [herase, hflat]
  exact flatMap_split hsorted hothers h

end Tears

/-! ## Sections -/

section Sections

variable {p : Entry → Bool}

/-- In its section an option's name tells its address. -/
theorem Body.WellFormed.decide_address_eq {b : Body} (hb : b.WellFormed) {a : Address}
    (hfile : b.file = a.file) (hname : b.name = a.sectionName) :
    ∀ e ∈ b.entries, decide (e.address = a) = decide (e.name = a.option) := by
  intro e he
  have hentry := hb.entries e he
  have haddress : e.address = a ↔ e.name = a.option := by
    cases a
    simp only [Cell.address, Address.mk.injEq]
    refine ⟨fun h => h.2.2, fun h => ⟨?_, ?_, h⟩⟩
    · exact hentry.file_eq.trans hfile
    · exact hentry.sectionName_eq.trans hname
  rw [decide_eq_decide]
  exact haddress

/-- The option of a name is removed. -/
theorem Body.WellFormed.tears_remove {b : Body} (hb : b.WellFormed) {name : String}
    (hp : ∀ e ∈ b.entries, p e = decide (e.name = name)) :
    Tears p b.entries (b.remove name).result.1.entries (b.remove name).events := by
  have hothers : ∀ e ∈ b.entries, e.name ≠ name → ∀ f ∈ [e], p f = false := by
    intro e he hne f hf
    rw [List.mem_singleton.1 hf, hp e he]
    exact decide_eq_false hne
  unfold Body.remove
  cases he : b.entry? name with
  | none =>
    have h := Tears.flatMap_none he hothers
    rw [List.flatMap_singleton'] at h
    exact h
  | some e =>
    have hself : ∀ f ∈ [e], p f = true := by
      intro f hf
      rw [List.mem_singleton.1 hf, hp e (Roster.mem_of_find?_eq_some he)]
      exact decide_eq_true (Roster.name_of_find?_eq_some he)
    have h := Tears.flatMap_erase hb.sorted he hothers (.all hself)
    rw [List.flatMap_singleton', List.flatMap_singleton', List.flatMap_singleton] at h
    refine h.log fun x hx => ?_
    rw [show x = _ from List.mem_singleton.1 hx]
    rfl

/-- All options are removed. -/
theorem Body.tears_clear {b : Body} (hp : ∀ e ∈ b.entries, p e = true) :
    Tears p b.entries b.clear.result.entries b.clear.events := by
  exact (Tears.all hp).done

/-- An unset removes the option, where users may remove options and no hook does it for them. -/
theorem Section.tears_unset {s : Section} (hs : s.toBody.WellFormed) {name : String}
    (hdelete : s.canDelete = true) (hook : s.hooks.delete = none)
    (hp : ∀ e ∈ s.entries, p e = decide (e.name = name)) :
    Tears p s.entries (s.unset name).result.1.entries (s.unset name).events := by
  have h := hs.tears_remove hp
  unfold Section.unset
  cases he : s.entry? name with
  | none =>
    simp only [Body.remove, he] at h
    exact h
  | some e =>
    simp only [hdelete, hook]
    exact h.done.done

end Sections

/-! ## Files and registries -/

section Files

variable {p : Entry → Bool} {d : Document} {r : Registry}

/-- What is picked is in one section of the file, which changes. -/
theorem Document.WellFormed.tears_onSection {α : Type} (hd : d.WellFormed) {sectionName : String}
    {f : Section → Traced (Section × α)}
    (hp : ∀ s ∈ d.sections, s.name ≠ sectionName → ∀ e ∈ s.entries, p e = false)
    (hf : ∀ s, d.section? sectionName = some s →
      Tears p s.entries (f s).result.1.entries (f s).events) :
    Tears p d.entries (d.onSection sectionName f).result.1.entries
      (d.onSection sectionName f).events := by
  unfold Document.onSection
  cases hs : d.section? sectionName with
  | none => exact Tears.flatMap_none hs hp
  | some s => exact (Tears.flatMap_replace hd.sorted hs hp (hf s hs)).done

/-- What is picked are the options of one section of the file, which goes. -/
theorem Document.WellFormed.tears_removeSection (hd : d.WellFormed) {sectionName : String}
    (hp : ∀ s ∈ d.sections, ∀ e ∈ s.entries, p e = decide (s.name = sectionName)) :
    Tears p d.entries (d.removeSection sectionName).result.1.entries
      (d.removeSection sectionName).events := by
  have hothers : ∀ s ∈ d.sections, s.name ≠ sectionName → ∀ e ∈ s.entries, p e = false :=
    fun s hs hne e he => (hp s hs e he).trans (decide_eq_false hne)
  unfold Document.removeSection
  cases hs : d.section? sectionName with
  | none => exact Tears.flatMap_none hs hothers
  | some s =>
    have hall : ∀ e ∈ s.entries, p e = true := fun e he =>
      (hp s (Roster.mem_of_find?_eq_some hs) e he).trans
        (decide_eq_true (Roster.name_of_find?_eq_some hs))
    exact (Tears.flatMap_erase hd.sorted hs hothers (Body.tears_clear hall)).done

/-- The options of a file carry its name. -/
theorem Document.WellFormed.file_eq (hd : d.WellFormed) {e : Entry} (he : e ∈ d.entries) :
    e.file = d.name := by
  obtain ⟨s, hs, he⟩ := List.mem_flatMap.1 he
  exact ((hd.sections s hs).entries e he).file_eq.trans (hd.owner s hs)

/-- What is picked is in one file, which changes. -/
theorem Registry.WellFormed.tears_onDocument {α : Type} (hr : r.WellFormed) {file : String}
    {f : Document → Traced (Document × α)}
    (hp : ∀ d ∈ r.documents, d.name ≠ file → ∀ e ∈ d.entries, p e = false)
    (hf : ∀ d, r.document? file = some d →
      Tears p d.entries (f d).result.1.entries (f d).events) :
    Tears p r.entries (r.onDocument file f).result.1.entries (r.onDocument file f).events := by
  unfold Registry.onDocument
  cases hd : r.document? file with
  | none => exact Tears.flatMap_none hd hp
  | some d => exact (Tears.flatMap_replace hr.sorted hd hp (hf d hd)).done

/-- The removals of all options of a file, section by section. -/
theorem Document.removalEvents_eq (d : Document) :
    d.removalEvents = d.entries.flatMap Entry.removalEvents :=
  List.flatMap_assoc.symm

/-- What is picked are the options of one file, which goes. -/
theorem Registry.WellFormed.tears_removeFile (hr : r.WellFormed) {file : String}
    (hp : ∀ d ∈ r.documents, ∀ e ∈ d.entries, p e = decide (d.name = file)) :
    Tears p r.entries (r.removeFile file).result.1.entries (r.removeFile file).events := by
  have hothers : ∀ d ∈ r.documents, d.name ≠ file → ∀ e ∈ d.entries, p e = false :=
    fun d hd hne e he => (hp d hd e he).trans (decide_eq_false hne)
  unfold Registry.removeFile
  cases hd : r.document? file with
  | none => exact Tears.flatMap_none hd hothers
  | some d =>
    have hall : ∀ e ∈ d.entries, p e = true := fun e he =>
      (hp d (Roster.mem_of_find?_eq_some hd) e he).trans
        (decide_eq_true (Roster.name_of_find?_eq_some hd))
    have hcleared : Tears p d.entries [] d.clear.events := by
      show Tears p d.entries [] (d.removalEvents ++ [])
      rw [d.removalEvents_eq, List.append_nil]
      exact .all hall
    refine (Tears.flatMap_erase hr.sorted hd hothers hcleared).log fun x hx => ?_
    rw [show x = _ from List.mem_singleton.1 hx]
    rfl

/-- All options of all files go. -/
theorem Registry.tears_clear (hp : ∀ e ∈ r.entries, p e = true) :
    Tears p r.entries r.clear.result.entries r.clear.events := by
  have hevents : r.documents.flatMap Document.removalEvents =
      r.entries.flatMap Entry.removalEvents := by
    calc r.documents.flatMap Document.removalEvents
        = r.documents.flatMap fun d => d.entries.flatMap Entry.removalEvents :=
          congrArg (r.documents.flatMap ·) (funext Document.removalEvents_eq)
      _ = r.entries.flatMap Entry.removalEvents := List.flatMap_assoc.symm
  show Tears p r.entries [] (r.documents.flatMap Document.removalEvents ++ [])
  rw [hevents, List.append_nil]
  exact .all hp

/-- What is picked is in one section of one file, which changes. -/
theorem Registry.WellFormed.tears_onSection {α : Type} (hr : r.WellFormed)
    {file sectionName : String} {f : Section → Traced (Section × α)}
    (hp : ∀ e ∈ r.entries, p e = true → e.file = file ∧ e.sectionName = sectionName)
    (hf : ∀ s, r.section? file sectionName = some s → s.toBody.WellFormed → s.file = file →
      s.name = sectionName → Tears p s.entries (f s).result.1.entries (f s).events) :
    Tears p r.entries (r.onSection file sectionName f).result.1.entries
      (r.onSection file sectionName f).events := by
  have hothers : ∀ d ∈ r.documents, d.name ≠ file → ∀ e ∈ d.entries, p e = false := by
    intro d hd hne e he
    have hmem : e ∈ r.entries := List.mem_flatMap.2 ⟨d, hd, he⟩
    refine Bool.eq_false_iff.2 fun hpe => hne ?_
    rw [← (hp e hmem hpe).1, (hr.documents d hd).file_eq he]
  have hfound : ∀ d, r.document? file = some d → Tears p d.entries
      (d.onSection sectionName f).result.1.entries (d.onSection sectionName f).events := by
    intro d hd
    have hdmem := Roster.mem_of_find?_eq_some hd
    have hdwell := hr.documents d hdmem
    refine hdwell.tears_onSection (fun s hs hne e he => ?_) fun s hs => ?_
    · have hmem : e ∈ r.entries := mem_entries_iff.2 ⟨d, hdmem, s, hs, he⟩
      refine Bool.eq_false_iff.2 fun hpe => hne ?_
      rw [← (hp e hmem hpe).2, ((hdwell.sections s hs).entries e he).sectionName_eq]
    · have hsmem := Roster.mem_of_find?_eq_some hs
      refine hf s ?_ (hdwell.sections s hsmem) ?_ (Roster.name_of_find?_eq_some hs)
      · unfold section?
        rw [hd]
        exact hs
      · exact (hdwell.owner s hsmem).trans (Roster.name_of_find?_eq_some hd)
  exact (hr.tears_onDocument hothers hfound).done

end Files

namespace Registry

variable {r : Registry}

/-- An unset where users may remove options and no hook does it for them. -/
theorem WellFormed.tears_unset (hr : r.WellFormed) {a : Address}
    (hplain : Teardown.Plain r a.file a.sectionName) :
    Tears (fun e => decide (e.address = a)) r.entries
      (r.onSection a.file a.sectionName fun s => s.unset a.option).result.1.entries
      (r.onSection a.file a.sectionName fun s => s.unset a.option).events := by
  refine hr.tears_onSection (fun e _ he => ?_) fun s hs hwell hfile hname => ?_
  · rw [← of_decide_eq_true he]
    exact ⟨rfl, rfl⟩
  · obtain ⟨hdelete, hook⟩ := hplain s hs
    exact Section.tears_unset hwell hdelete hook (hwell.decide_address_eq hfile hname)

/-- Each teardown removes what it covers and tells of it. -/
theorem WellFormed.tears (hr : r.WellFormed) (disk : Disk) {t : Teardown} (ht : t.Applies r) :
    Tears (fun e => t.covers e.address) r.entries (t.operation.perform r disk).result.1.entries
      (t.operation.perform r disk).events := by
  -- What is left of an operation's answer are no events.
  have alone {α : Type} {p : Entry → Bool} {x : Traced (Registry × α)}
      (h : Tears p r.entries x.result.1.entries x.events) :
      Tears p r.entries (Operation.onRegistry disk x).result.1.entries
        (Operation.onRegistry disk x).events := h.done
  cases t with
  | removeOption file sectionName option =>
    refine alone (hr.tears_onSection (fun e _ he => ?_) fun s hs hwell hfile hname => ?_)
    · have haddress : e.address = ⟨file, sectionName, option⟩ := of_decide_eq_true he
      exact ⟨congrArg Address.file haddress, congrArg Address.sectionName haddress⟩
    · have h := hwell.tears_remove
        (hwell.decide_address_eq (a := ⟨file, sectionName, option⟩) hfile hname)
      exact h.done.done
  | clearOptions file sectionName =>
    refine alone (hr.tears_onSection (fun e _ he => ?_) fun s hs hwell hfile hname => ?_)
    · exact of_decide_eq_true he
    · refine ((Body.tears_clear fun e he => ?_).done).done
      have hentry := hwell.entries e he
      exact decide_eq_true ⟨hentry.file_eq.trans hfile, hentry.sectionName_eq.trans hname⟩
  | unsetIn file sectionName option =>
    exact alone (hr.tears_unset (a := ⟨file, sectionName, option⟩) ht)
  | unsetOption path =>
    refine alone ?_
    unfold Registry.unsetOption
    cases ha : Address.ofPath? path with
    | none =>
      refine .none fun e _ => ?_
      simp [Teardown.covers, ha]
    | some a =>
      have h := (hr.tears_unset (ht a ha)).done
      simp only [Teardown.covers, ha, Option.some.injEq, eq_comm (a := a)]
      exact h
  | removeSection file sectionName =>
    refine alone (hr.tears_onDocument (fun d hd hne e he => ?_) fun d hd => ?_)
    · refine decide_eq_false fun h => hne ?_
      rw [← (hr.documents d hd).file_eq he]
      exact h.1
    · have hdmem := Roster.mem_of_find?_eq_some hd
      have hdwell := hr.documents d hdmem
      refine hdwell.tears_removeSection fun s hs e he => ?_
      have hentry := (hdwell.sections s hs).entries e he
      have hfile : e.file = file :=
        (hentry.file_eq.trans (hdwell.owner s hs)).trans (Roster.name_of_find?_eq_some hd)
      simp [Teardown.covers, Cell.address, hfile, hentry.sectionName_eq]
  | removeFile file =>
    refine alone (hr.tears_removeFile fun d hd e he => ?_)
    simp [Teardown.covers, Cell.address, (hr.documents d hd).file_eq he]
  | removeFiles => exact (tears_clear fun _ _ => rfl).done

/-- None of the six ways touches the disk. -/
theorem disk_teardown (r : Registry) (disk : Disk) (t : Teardown) :
    (t.operation.perform r disk).result.2 = disk := by
  cases t <;> rfl

/-- In a registry that a host can bring about, each of the six ways to take options away removes
exactly the options at or below the node that it names, and leaves all others as they were. The
events are, in the order of file, section and option names and for each option that is gone: the
last value to its owner if it asked to be told, then null under its full name. Records may follow,
and there is no other event. -/
theorem teardown_spec (hr : r.Reachable) (disk : Disk) {t : Teardown} (ht : t.Applies r) :
    let gone := r.entries.filter fun e => t.covers e.address
    let x := t.operation.perform r disk
    x.result.1.entries = (r.entries.filter fun e => !t.covers e.address) ∧ x.result.2 = disk ∧
      (gone.Pairwise fun e f => e.address.Before f.address) ∧
      ∃ records, (∀ event ∈ records, event.isRecord = true) ∧
        x.events = gone.flatMap (fun e =>
          (if e.tellsRemoval then [.deleted e.fullName e.valueText] else []) ++
            [.notified e.fullName none]) ++ records := by
  intro gone x
  have htears := hr.wellFormed.tears disk ht
  exact ⟨htears.rest, disk_teardown r disk t, hr.wellFormed.pairwise_entries.filter _, htears.told⟩

/-- A run that makes options in two sections, of which one lets users remove options, and in another
file. Two of the owners ask to be told. -/
def crowding : List Operation :=
  [.addFile "irc", .addSection "irc" { name := "look" }, .addFile "app",
    .addSection "app" { name := "look" }, .addSection "app" { name := "key", canDelete := true },
    .edit "irc" "look"
      (.define { name := "nick", kind := .string, default := some "me" } fun _ => .finish (.ok ())),
    .edit "app" "look"
      (.define { name := "bold", kind := .boolean, default := some "on" } fun _ =>
        .finish (.ok ())),
    .edit "app" "key"
      (.define { name := "up", kind := .string, default := some "w", tellsRemoval := true } fun _ =>
        .define { name := "down", kind := .string, default := some "s", tellsRemoval := true }
          fun _ => .finish (.ok ())),
    .setOption "app.key.up" (some "k")]

/-- What `crowding` leads to. -/
def crowded : Registry :=
  (run crowding { env := { dir := "/etc" } } {}).result.1

/-- An unset removes one option, and a removal of the file all three of the file. -/
theorem teardown_crowded :
    (∃ records, ((Teardown.unsetIn "app" "key" "up").operation.perform crowded {}).events =
        [.deleted "app.key.up" (some "k"), .notified "app.key.up" none] ++ records) ∧
      ((Teardown.removeFile "app").operation.perform crowded {}).result.1.entries.map
          (fun e => e.fullName) = ["irc.look.nick"] ∧
      ∃ records, ((Teardown.removeFile "app").operation.perform crowded {}).events =
        [.deleted "app.key.down" (some "s"), .notified "app.key.down" none,
          .deleted "app.key.up" (some "k"), .notified "app.key.up" none,
          .notified "app.look.bold" none] ++ records := by
  have hreachable : crowded.Reachable := by
    unfold crowded
    exact ⟨{ dir := "/etc" }, crowding, {}, rfl⟩
  have hplain : (Teardown.unsetIn "app" "key" "up").Applies crowded := by
    intro s hs
    have hsome : ((crowded.section? "app" "key").all fun s =>
        s.canDelete && s.hooks.delete.isNone) = true := by decide +kernel
    rw [hs] at hsome
    simpa using hsome
  obtain ⟨-, -, -, records, -, hunset⟩ := teardown_spec hreachable {} hplain
  obtain ⟨hrest, -, -, records', -, hremoved⟩ :=
    teardown_spec hreachable {} (t := .removeFile "app") trivial
  refine ⟨⟨records, ?_⟩, ?_, ⟨records', ?_⟩⟩
  · rw [hunset]
    exact congrArg (· ++ records) (by decide +kernel)
  · rw [hrest]
    decide +kernel
  · rw [hremoved]
    exact congrArg (· ++ records') (by decide +kernel)

end Registry

end TypedConfig
