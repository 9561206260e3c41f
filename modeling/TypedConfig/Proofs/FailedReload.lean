import TypedConfig.Proofs.Convergence

/-!
# What a failed reload does

A reload that fails has read nothing: it could not open the file, or not read what it opened. Still
it goes on as if the file were empty. All marks are gone by then, so each option that is not left
to a read hook is reset to its default value, and those that held another one publish the change
(`Document.reverted_of_failed_reload`). So such a reload loses nothing if and only if there was
nothing to lose, which is not always the case (`Document.not_losesNothing_stocked`).
-/

namespace TypedConfig

/-- The events of a reset to the default value. -/
def Entry.revertEvents (e : Entry) : List Event :=
  if e.value = e.default then [] else { e with value := e.default : Entry }.changeEvents

/-- The events of resetting all options of a section, unless a read hook takes its lines. -/
def Section.revertEvents (s : Section) : List Event :=
  if s.hooks.read.isSome then [] else s.entries.flatMap Entry.revertEvents

namespace Document

/-- All options of sections without a read hook have their default values. -/
def HoldsDefaults (d : Document) : Prop :=
  ∀ s ∈ d.sections, s.hooks.read = none → ∀ e ∈ s.entries, e.value = e.default

/-- Where a reload fails, each option has the value that it had, and nothing was published. -/
def LosesNothing (d : Document) (env : Environment) (disk : Disk) : Prop :=
  ∀ d' disk' failure, (d.reload env disk).result = (d', disk', .error failure) →
    (∀ n o, d'.value? n o = d.value? n o) ∧ Silent (d.reload env disk).events

/-- A reading that fails notes at most the version and the stamp, and publishes nothing. -/
theorem load_of_failed {d d' : Document} {env : Environment} {disk disk' : Disk}
    {reloading : Bool} {failure : Failure}
    (h : (d.load env disk reloading).result = (d', disk', .error failure)) :
    failure = .unreadable (d.path env) ∧ (∃ versionRead stamp, d' = { d with versionRead, stamp }) ∧
      Silent (d.load env disk reloading).events := by
  obtain ⟨stamp, hdocument⟩ := bootstrap_document d env disk
  have hsilent := EvolvesIn.silent_bootstrap d env disk
  simp only [load, Traced.result_bind, Traced.events_bind, hdocument] at h ⊢
  generalize (d.bootstrap env disk).result.2.1 = disk₁ at h ⊢
  generalize (d.bootstrap env disk).result.2.2 = made at h ⊢
  split at h
  · cases reloading <;> cases h
  · -- A directory is opened, but it cannot be read.
    cases reloading <;> cases h
    · exact ⟨rfl, ⟨1, stamp, rfl⟩, hsilent.append ((silent_singleton rfl).append silent_nil)⟩
    · exact ⟨rfl, ⟨1, stamp, rfl⟩, hsilent.append silent_nil⟩
  · cases h
    exact ⟨rfl, ⟨d.versionRead, stamp, rfl⟩,
      hsilent.append ((silent_singleton rfl).append ((silent_singleton rfl).append silent_nil))⟩

end Document

/-- An option that loses its mark and is reset at once publishes what it loses. -/
theorem Entry.events_resetMissing_unmark {e : Entry} (h : e.Sound) :
    ({ e with loaded := false } : Entry).resetMissing.events = e.revertEvents := by
  have hsound : ({ e with loaded := false } : Entry).Sound := ⟨h.domain, h.value, h.default⟩
  have hreset := hsound.reset_eq_store
  unfold resetMissing revertEvents
  simp only [Bool.false_eq_true, if_false, Traced.events_bind, hreset]
  unfold store
  by_cases hsame : e.value = e.default
  · have hget : ({ e with loaded := false } : Entry).get .value = e.default := hsame
    rw [if_pos hsame, if_pos hget]
    rfl
  · have hget : ¬ ({ e with loaded := false } : Entry).get .value = e.default := hsame
    rw [if_neg hsame, if_neg hget]
    show ({ e with value := e.default, loaded := false : Entry }.changeEvents ++ []) ++ [] = _
    rw [List.append_nil, List.append_nil]
    rfl

/-- A section that loses its marks and is reset at once publishes what its options lose. -/
theorem Section.events_resetMissing_unmark {s : Section} (h : ∀ e ∈ s.entries, e.Sound) :
    s.unmark.resetMissing.events = s.revertEvents := by
  unfold revertEvents
  cases hread : s.hooks.read with
  | some hook =>
    rw [Section.unmark_of_read hread]
    unfold resetMissing
    rw [hread]
    rfl
  | none =>
    unfold unmark resetMissing
    simp only [hread, Option.isSome_none, Bool.false_eq_true, if_false, Traced.events_bind,
      Traced.events_pure, List.append_nil, Traced.events_each, List.flatMap_map]
    exact List.flatMap_congr fun e he => Entry.events_resetMissing_unmark (h e he)

/-- A section keeps its name where its options are reset. -/
theorem Section.name_reverted (s : Section) : s.reverted.name = s.name := by
  unfold reverted
  split <;> rfl

/-- Without a read hook each option has its default value then, and no mark. -/
theorem Section.entry?_reverted {s : Section} (h : s.hooks.read = none) (n : String) :
    s.reverted.entry? n =
      (s.entry? n).map fun e => { e with value := e.default, loaded := false } := by
  unfold reverted
  rw [h]
  exact Roster.find?_map (f := fun e : Entry => { e with value := e.default, loaded := false })
    (fun _ => rfl) n s.entries

namespace Document

variable {d d' : Document} {env : Environment} {disk disk' : Disk} {failure : Failure}

/-- A file that loses its marks and is reset at once publishes what its options lose. -/
theorem events_resetMissing_markMissing (hsound : ∀ s ∈ d.sections, ∀ e ∈ s.entries, e.Sound) :
    d.markMissing.resetMissing.events = d.sections.flatMap Section.revertEvents := by
  have hsections : d.markMissing.sections = d.sections.map Section.unmark := rfl
  simp only [resetMissing, Traced.events_bind, Traced.events_pure, List.append_nil,
    Traced.events_each, hsections, List.flatMap_map]
  exact List.flatMap_congr fun s hs => Section.events_resetMissing_unmark (hsound s hs)

/-- What a reload does that fails: all marks are gone, and all options without one are reset. -/
theorem reload_of_failed (hsound : ∀ s ∈ d.sections, ∀ e ∈ s.entries, e.Sound)
    (h : (d.reload env disk).result = (d', disk', .error failure)) :
    failure = .unreadable (d.path env) ∧ d'.sections = d.sections.map Section.reverted ∧
      ∃ es, Silent es ∧
        (d.reload env disk).events = es ++ d.sections.flatMap Section.revertEvents := by
  obtain ⟨x, hload, rfl⟩ := exists_load_of_reload h
  obtain ⟨hfailure, ⟨versionRead, stamp, rfl⟩, hsilent⟩ := load_of_failed hload
  have hlog : Silent (Traced.log .info ("Reloading configuration file " ++ d.fileName)).events :=
    silent_singleton rfl
  have hresets := events_resetMissing_markMissing hsound
  refine ⟨hfailure, sections_resetMissing_markMissing hsound, _, hlog.append hsilent, ?_⟩
  simp only [reload, Traced.events_bind, Traced.events_pure, List.append_nil, List.append_assoc,
    hload]
  rw [← hresets]
  rfl

/-- An option of a reverted file has its default value, unless it is left to a read hook. -/
theorem value?_of_sections_eq_reverted (h : d'.sections = d.sections.map Section.reverted)
    (sectionName option : String) :
    d'.value? sectionName option = (d.section? sectionName).bind fun s =>
      (s.entry? option).map fun e => if s.hooks.read.isSome then e.value else e.default := by
  have hfind :=
    Roster.find?_map (f := Section.reverted) Section.name_reverted sectionName d.sections
  unfold value? option? section?
  rw [h, hfind]
  cases Roster.find? sectionName d.sections with
  | none => rfl
  | some s =>
    show (s.reverted.entry? option).map _ = (s.entry? option).map _
    cases hread : s.hooks.read with
    | some hook =>
      unfold Section.reverted
      rw [hread]
      rfl
    | none =>
      rw [Section.entry?_reverted hread, Option.map_map]
      rfl

/-- A reload that fails loses nothing if and only if there are only default values to lose. -/
theorem losesNothing_iff_of_failed (hwell : d.WellFormed)
    (h : (d.reload env disk).result = (d', disk', .error failure)) :
    d.LosesNothing env disk ↔ d.HoldsDefaults := by
  have hsound : ∀ s ∈ d.sections, ∀ e ∈ s.entries, e.Sound :=
    fun s hs e he => ((hwell.sections s hs).entries e he).sound
  obtain ⟨-, hsections, es, hes, hevents⟩ := reload_of_failed hsound h
  have hvalue := value?_of_sections_eq_reverted hsections
  constructor
  · intro hkept s hs hread e he
    -- In a sorted list each name leads to its own entry, so values are seen through names.
    have hsection : d.section? s.name = some s := hwell.sorted.find?_eq_some_iff.2 ⟨hs, rfl⟩
    have hentry : s.entry? e.name = some e :=
      (hwell.sections s hs).sorted.find?_eq_some_iff.2 ⟨he, rfl⟩
    have hsame := (hkept d' disk' failure h).1 s.name e.name
    rw [hvalue, value?, option?, hsection, Option.bind_some, Option.bind_some, hentry, hread]
      at hsame
    exact (Option.some.inj hsame).symm
  · intro hdefaults d₂ disk₂ failure₂ h₂
    obtain ⟨rfl, -⟩ := Prod.mk.inj (h.symm.trans h₂)
    constructor
    · intro n o
      rw [hvalue, value?, option?]
      cases hs : d.section? n with
      | none => rfl
      | some s =>
        refine Option.map_congr fun e he => ?_
        have hkept := hdefaults s (Roster.mem_of_find?_eq_some hs)
        cases hread : s.hooks.read with
        | some hook => rfl
        | none => exact (hkept hread e (Roster.mem_of_find?_eq_some he)).symm
    · have hnone : d.sections.flatMap Section.revertEvents = [] := by
        refine List.flatMap_eq_nil_iff.2 fun s hs => ?_
        unfold Section.revertEvents
        cases hread : s.hooks.read with
        | some hook => rfl
        | none => exact List.flatMap_eq_nil_iff.2 fun e he => if_pos (hdefaults s hs hread e he)
      rw [hevents, hnone, List.append_nil]
      exact hes

/-- Whatever file a host can bring about and whatever stands on the disk, a reload that fails was
not able to read the file, resets all options that are not left to a read hook, and publishes those
that had another value than the default one. It loses nothing if and only if there is none of
these. -/
theorem reverted_of_failed_reload {r : Registry} (hr : r.Reachable) (hd : d ∈ r.documents)
    (h : (d.reload env disk).result = (d', disk', .error failure)) :
    failure = .unreadable (d.path env) ∧ d'.sections = d.sections.map Section.reverted ∧
      (∃ es, Silent es ∧
        (d.reload env disk).events = es ++ d.sections.flatMap Section.revertEvents) ∧
      (d.LosesNothing env disk ↔ d.HoldsDefaults) := by
  have hwell := hr.wellFormed.documents d hd
  have hsound : ∀ s ∈ d.sections, ∀ e ∈ s.entries, e.Sound :=
    fun s hs e he => ((hwell.sections s hs).entries e he).sound
  obtain ⟨hfailure, hsections, hevents⟩ := reload_of_failed hsound h
  exact ⟨hfailure, hsections, hevents, losesNothing_iff_of_failed hwell h⟩

end Document

/-- A disk with a text that has a line for each option, in a file that may not be read. -/
def lockedDisk : Disk where
  nodes := [(["etc"], .directory), (["etc", "app.conf"], .file (Utf8.encode
    "[look]\ndepth = 5\nheight = 5\nwidth = 5\n[raw]\ndepth = 5\n".toList) 0 (.second 0))]

/-- The numbers of the section without hooks go back from 5 to 1, and those of the section with a
read hook stay. -/
theorem reverted_of_failed_reload_stocked :
    ∃ d' disk', (stocked.reload { dir := "/etc" } lockedDisk).result =
        (d', disk', .error (.unreadable "/etc/app.conf")) ∧
      d'.value? "look" "depth" = some (some (.integer 1)) ∧
      d'.value? "raw" "depth" = some (some (.integer 5)) := by
  have hreachable : Registry.Reachable { env := { dir := "/etc" }, documents := [stocked] } :=
    ⟨{ dir := "/etc" }, stocking, {}, rfl⟩
  have hfails : (stocked.reload { dir := "/etc" } lockedDisk).result.2.2.isOk = false := by
    decide +kernel
  generalize hresult : (stocked.reload { dir := "/etc" } lockedDisk).result = result at hfails ⊢
  obtain ⟨d', disk', answer⟩ := result
  cases answer with
  | ok report => cases hfails
  | error failure =>
    obtain ⟨hfailure, hsections, -⟩ := Document.reverted_of_failed_reload hreachable
      (List.mem_singleton_self stocked) hresult
    have hpath : stocked.path { dir := "/etc" } = "/etc/app.conf" := by decide +kernel
    rw [hpath] at hfailure
    have hvalue := Document.value?_of_sections_eq_reverted hsections
    refine ⟨d', disk', by rw [hfailure], ?_, ?_⟩
    · rw [hvalue]
      rfl
    · rw [hvalue]
      rfl

/-- These numbers are lost, although the file has a line for each of them. -/
theorem Document.not_losesNothing_stocked :
    (∃ r : Registry, r.Reachable ∧ stocked ∈ r.documents) ∧
      ¬ stocked.LosesNothing { dir := "/etc" } lockedDisk := by
  have hreachable : Registry.Reachable { env := { dir := "/etc" }, documents := [stocked] } :=
    ⟨{ dir := "/etc" }, stocking, {}, rfl⟩
  refine ⟨⟨_, hreachable, List.mem_singleton_self stocked⟩, fun hkept => ?_⟩
  have hrun : (stocked.reload { dir := "/etc" } lockedDisk).result.2.2.isOk = false ∧
      (stocked.reload { dir := "/etc" } lockedDisk).result.1.value? "look" "depth" ≠
        stocked.value? "look" "depth" := by decide +kernel
  obtain ⟨hfails, hlost⟩ := hrun
  generalize hresult : (stocked.reload { dir := "/etc" } lockedDisk).result = result at hfails hlost
  obtain ⟨d', disk', answer⟩ := result
  cases answer with
  | ok report => cases hfails
  | error failure => exact hlost ((hkept d' disk' failure hresult).1 "look" "depth")

end TypedConfig
