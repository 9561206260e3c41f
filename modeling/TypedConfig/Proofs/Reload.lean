import TypedConfig.Proofs.Projection

/-!
# What a reload does

A reload takes marks away, reads the file and resets the options without a mark. Where the file is
read without being rejected, this comes to a statement about each option alone
(`Document.Reloaded`): an option that was there keeps what its own lines make of its value, or has
its default value where it has no line; one that a hook makes during the reload
(`Section.Makes`) stays, with what its later lines make of it; and sections with a read hook are
left to that hook.
-/

namespace TypedConfig

namespace Document

/-! ## Reading from the disk -/

/-- A file that is there is not made. -/
theorem bootstrap_of_isThere {d : Document} {env : Environment} {disk : Disk}
    (h : disk.isThere (d.path env) = true) : d.bootstrap env disk = pure (d, disk, false) :=
  if_pos h

/-- Where a reading succeeds, the text on the disk was taken in, which was made first if the file
was missing. -/
theorem exists_parse_of_load {d d' : Document} {env : Environment} {disk disk' : Disk}
    {reloading : Bool} {report : Report}
    (h : (d.load env disk reloading).result = (d', disk', .ok report)) :
    ∃ stamp disk₁ made content p,
      (d.bootstrap env disk).result = ({ d with stamp }, disk₁, made) ∧
      disk₁.read? (d.path env) = some content ∧
      ({ d with stamp : Document }.parse disk₁ (d.path env) content).result = p ∧
      d' = p.1.recordStamp env p.2.1 ∧ disk' = p.2.1 ∧
      report = { p.2.2 with bootstrapped := made } := by
  obtain ⟨stamp, hdocument⟩ := bootstrap_document d env disk
  generalize hbootstrap : (d.bootstrap env disk).result = b at hdocument
  obtain ⟨x, disk₁, made⟩ := b
  obtain rfl : x = { d with stamp } := hdocument
  simp only [load, Traced.result_bind, hbootstrap] at h
  -- The file was opened, or the reading fails for one of two reasons.
  split at h
  · next content mode modified hopen =>
    have hread : disk₁.read? (d.path env) = some content := by
      unfold Disk.read?
      rw [hopen]
    generalize hparse : ({ d with stamp : Document }.parse disk₁ (d.path env) content).result = p
      at h
    have heq : (p.1.recordStamp env p.2.1, p.2.1, Except.ok { p.2.2 with bootstrapped := made }) =
        (d', disk', Except.ok (ε := Failure) report) := by
      cases reloading with
      | false => rw [← h, ← hparse]; rfl
      | true => rw [← h, ← hparse]; rfl
    obtain ⟨hdocument, hrest⟩ := Prod.mk.inj heq
    obtain ⟨hdisk', hreport⟩ := Prod.mk.inj hrest
    exact ⟨stamp, disk₁, made, content, p, rfl, hread, hparse, hdocument.symm, hdisk'.symm,
      (Except.ok.inj hreport).symm⟩
  · cases reloading <;> cases h
  · cases h

/-- A file that is read without being rejected takes in the deliveries of the text on the disk. -/
theorem load_spec {d d' : Document} {env : Environment} {disk disk' : Disk} {reloading : Bool}
    {report : Report} (h : (d.load env disk reloading).result = (d', disk', .ok report))
    (hnone : report.rejected = none) :
    ∃ content c stamp, disk'.read? (d.path env) = some content ∧
      (disk.isThere (d.path env) = true → disk' = disk) ∧
      d' = { d.accept c (d.deliveries content) with stamp } := by
  obtain ⟨stamp, disk₁, made, content, p, hmade, hread, hparse, rfl, rfl, rfl⟩ :=
    exists_parse_of_load h
  have hdisk (hthere : disk.isThere (d.path env) = true) : disk₁ = disk := by
    rw [bootstrap_of_isThere hthere] at hmade
    exact (Prod.mk.inj (Prod.mk.inj hmade).2).1.symm
  have hrejected :
      ({ d with stamp : Document }.parse disk₁ (d.path env) content).result.2.2.rejected =
        none := by
    rw [hparse]
    exact hnone
  have haccept := parse_eq_accept { d with stamp } disk₁ (d.path env) content hrejected
  obtain ⟨_, hresult⟩ := parse_of_not_rejected { d with stamp } disk₁ (d.path env) content hrejected
  rw [hparse] at haccept hresult
  have hsame : p.2.1 = disk₁ := by rw [hresult]
  rw [hsame, haccept]
  exact ⟨content, _, _, hread, hdisk, rfl⟩

end Document

/-! ## Marks -/

/-- A section with a read hook keeps its marks. -/
theorem Section.unmark_of_read {s : Section} {hook : String → Option String → Script SetOutcome}
    (h : s.hooks.read = some hook) : s.unmark = s := by
  unfold unmark
  rw [h]
  rfl

/-- A section without marks has the same name. -/
theorem Section.name_unmark (s : Section) : s.unmark.name = s.name := by
  unfold unmark
  split <;> rfl

/-- A section without marks has the same hooks. -/
theorem Section.hooks_unmark (s : Section) : s.unmark.hooks = s.hooks := by
  unfold unmark
  split <;> rfl

/-- Without a read hook every option loses its mark. -/
theorem Section.entry?_unmark {s : Section} (h : s.hooks.read = none) (n : String) :
    s.unmark.entry? n = (s.entry? n).map fun e => { e with loaded := false } := by
  unfold unmark
  rw [h]
  exact Roster.find?_map (f := fun e : Entry => { e with loaded := false }) (fun _ => rfl) n
    s.entries

/-- A section is found without its marks. -/
theorem Document.section?_markMissing {d : Document} {n : String} {s : Section}
    (hs : d.section? n = some s) : d.markMissing.section? n = some s.unmark := by
  have hfind := Roster.find?_map (f := Section.unmark) Section.name_unmark n d.sections
  have hfound : Roster.find? n d.sections = some s := hs
  rw [hfound] at hfind
  exact hfind

/-- Marks do not decide where lines go. -/
theorem Document.routing_markMissing (d : Document) : d.markMissing.routing = d.routing := by
  have hnames : Roster.names (d.sections.map Section.unmark) = Roster.names d.sections :=
    Roster.names_map Section.name_unmark d.sections
  unfold routing
  exact congrArg (fun sections => Routing.mk d.name d.version d.migration sections) hnames

/-- A text delivers the same to a file without marks. -/
theorem Document.deliveries_markMissing (d : Document) (bytes : List UInt8) :
    d.markMissing.deliveries bytes = d.deliveries bytes := by
  unfold deliveries
  rw [routing_markMissing]

/-! ## Resets -/

/-- An option with a mark stays as it is. -/
theorem Entry.resetMissing_of_loaded {e : Entry} (h : e.loaded = true) :
    e.resetMissing.result = e := by
  unfold resetMissing
  rw [if_pos h]
  rfl

/-- An option without a mark gets its default value, where it may hold that. -/
theorem Entry.resetMissing_of_not_loaded {e : Entry} (h : e.loaded = false) (he : e.Sound) :
    e.resetMissing.result = { e with value := e.default } := by
  unfold resetMissing
  rw [if_neg (by rw [h]; exact Bool.false_ne_true)]
  simp only [Traced.result_bind, he.reset_eq_store]
  obtain ⟨outcome, hok⟩ := e.store_isOk .value e.default
  rw [hok]
  exact e.store_entry .value e.default

/-- An option that lost its mark, took inputs and is reset where there was none. -/
theorem Entry.resetMissing_of_inputs {e : Entry} (he : e.Sound) (inputs : List (Option String)) :
    ({ e with
      value := ({ e with loaded := false : Entry }.setAll inputs).value
      loaded := false || !inputs.isEmpty } : Entry).resetMissing.result = { e with
        value := if inputs.isEmpty then e.default else (e.setAll inputs).value
        loaded := !inputs.isEmpty } := by
  rw [setAll_loaded]
  -- The mark that decides about the reset is back if and only if there was an input.
  cases inputs with
  | nil => exact resetMissing_of_not_loaded rfl ⟨he.domain, he.value, he.default⟩
  | cons input inputs => exact resetMissing_of_loaded rfl

/-- A section with a read hook is left to it. -/
theorem Section.resetMissing_of_read {s : Section}
    {hook : String → Option String → Script SetOutcome} (h : s.hooks.read = some hook) :
    s.resetMissing.result = s := by
  unfold resetMissing
  rw [h]
  rfl

/-- Without a read hook every option is reset that has no mark. -/
theorem Section.entry?_resetMissing {s : Section} (h : s.hooks.read = none) (n : String) :
    s.resetMissing.result.entry? n = (s.entry? n).map fun e => e.resetMissing.result := by
  have hname (e : Entry) : e.resetMissing.result.name = e.name :=
    (Entry.Evolves.resetMissing e).name_eq
  unfold resetMissing
  rw [h]
  simp only [Option.isSome_none, Bool.false_eq_true, if_false, Traced.result_bind,
    Traced.result_pure, Traced.result_each]
  exact Roster.find?_map hname n s.entries

/-- A section is found with its options reset. -/
theorem Document.section?_resetMissing {d : Document} {n : String} {s : Section}
    (hs : d.section? n = some s) :
    d.resetMissing.result.section? n = some s.resetMissing.result := by
  have hname (s : Section) : s.resetMissing.result.name = s.name :=
    (Section.Evolves.resetMissing s).names_eq.2
  have hfind := Roster.find?_map (f := fun s => s.resetMissing.result) hname n d.sections
  have hfound : Roster.find? n d.sections = some s := hs
  rw [hfound] at hfind
  simp only [resetMissing, Traced.result_bind, Traced.result_pure, Traced.result_each]
  exact hfind

/-! ## Options that are made during the reading -/

/-- All options of a name have their marks. -/
def Body.Marked (n : String) (b : Body) : Prop :=
  ∀ e ∈ b.entries, e.name = n → e.loaded = true

/-- What is made is marked, so a script takes no mark away. -/
theorem Body.Marked.script {α : Type} {n : String} (script : Script α) {b : Body}
    (h : b.Marked n) : (script.run b).result.1.Marked n := by
  -- The induction is on the script: each step leaves a marked section to the rest.
  induction script generalizing b with
  | finish result => exact h
  | look next ih => exact ih b h
  | define d next ih =>
    refine ih _ ?_
    unfold Body.define
    split
    · exact h
    · split
      · exact h
      · next e he =>
        intro f hf hn
        rcases Roster.mem_insert.1 hf with rfl | hf
        · exact Entry.loaded_of_ofDefinition? he
        · exact h f hf hn
  | remove name next ih =>
    refine ih _ ?_
    unfold Body.remove
    split
    · exact h
    · exact fun f hf => h f ((Roster.erase_sublist name b.entries).subset hf)
  | clear next ih => exact ih (by intro f hf; cases hf)
  | mutate name m next ih =>
    refine ih _ ?_
    unfold Body.mutate Body.change
    split
    · exact h
    · next e he =>
      intro f hf hn
      rcases Roster.mem_of_mem_replace hf with rfl | hf
      · obtain ⟨value, default, hframe⟩ := Entry.mutate_frame e m
        have hf : (e.mutate m).result.1.loaded = true := by
          have hn : (e.mutate m).result.1.name = n := hn
          rw [hframe] at hn ⊢
          exact h e (Roster.mem_of_find?_eq_some he) hn
        exact hf
      · exact h f hf hn

/-- An option that was made by a delivery has a mark, and the delivery was its own. -/
theorem Delivery.entry?_applyTo_of_none (l : Delivery) {s : Section} (hread : s.hooks.read = none)
    (hcreate : ∀ hook, s.hooks.create = some hook → KeepsToOption hook) {n : String} {e : Entry}
    (hnone : s.entry? n = none) (he : Body.entry? (l.applyTo s).toBody n = some e) :
    l.option = n ∧ e.loaded = true := by
  -- A change of an option makes none, so the hook ran, and it keeps to the option it is asked for.
  unfold applyTo Section.applyLine at he
  rw [hread] at he
  dsimp only at he
  cases hown : s.entry? l.option with
  | some f =>
    have hother : l.option ≠ n := by
      rintro rfl
      rw [hnone] at hown
      cases hown
    rw [hown] at he
    have hchange := entry?_change hown l.value n
    rw [if_neg hother, hnone] at hchange
    exact absurd (hchange.symm.trans he) nofun
  | none =>
    rw [hown] at he
    dsimp only at he
    cases hhook : s.hooks.create with
    | none =>
      rw [hhook] at he
      exact absurd (hnone.symm.trans he) nofun
    | some hook =>
      rw [hhook] at he
      have hrun : Body.entry? ((hook l.option l.value).run s.toBody).result.1 n = some e := he
      by_cases hn : l.option = n
      · refine ⟨hn, ?_⟩
        have hempty : s.toBody.Marked n := by
          intro f hf hname
          exact absurd hname (Roster.find?_eq_none.1 hnone f hf)
        have hmarked := hempty.script (hook l.option l.value)
        exact hmarked e (Roster.mem_of_find?_eq_some hrun) (Roster.name_of_find?_eq_some hrun)
      · have hkept := hcreate hook hhook l.option l.value s.toBody n (Ne.symm hn)
        exact absurd (hnone.symm.trans (hkept.symm.trans hrun)) nofun

/-- Among deliveries to a section is one that makes an option, as `e`, and `later` follows it. -/
def Section.Makes (s : Section) (ls : List Delivery) (n : String) (e : Entry)
    (later : List Delivery) : Prop :=
  ∃ before l, ls = before ++ l :: later ∧ l.option = n ∧
    Body.entry? (s.accept before).toBody n = none ∧
    Body.entry? (l.applyTo (s.accept before)).toBody n = some e

/-- A section takes the deliveries before one of them, that one, and those after it. -/
theorem Section.accept_append_cons (s : Section) (before : List Delivery) (l : Delivery)
    (later : List Delivery) :
    s.accept (before ++ l :: later) = (l.applyTo (s.accept before)).accept later := by
  unfold accept
  rw [List.foldl_append, List.foldl_cons]

/-- The delivery that makes an option leaves its mark. -/
theorem Section.Makes.loaded {s : Section} {ls later : List Delivery} {n : String} {e : Entry}
    (h : s.Makes ls n e later) (hread : s.hooks.read = none)
    (hcreate : ∀ hook, s.hooks.create = some hook → KeepsToOption hook) : e.loaded = true := by
  obtain ⟨before, l, -, -, hnone, he⟩ := h
  have hhooks := Delivery.hooks_accept before s
  exact (l.entry?_applyTo_of_none (by rw [hhooks, hread]) (by rwa [hhooks]) hnone he).2

/-- An option that a delivery makes is there after all of them, and is what the later ones make of
it. -/
theorem Section.Makes.entry?_accept {s : Section} {ls later : List Delivery} {n : String}
    {e : Entry} (h : s.Makes ls n e later) (hread : s.hooks.read = none)
    (hcreate : ∀ hook, s.hooks.create = some hook → KeepsToOption hook) :
    Body.entry? (s.accept ls).toBody n =
      some { e with value := (e.setAll (Delivery.valuesFor n later)).value } := by
  have hloaded := h.loaded hread hcreate
  obtain ⟨before, l, rfl, -, -, he⟩ := h
  have hhooks : (l.applyTo (s.accept before)).hooks = s.hooks :=
    (l.applyTo_spec _).1.trans (Delivery.hooks_accept before s)
  have hlater := Delivery.entry?_accept later (by rw [hhooks, hread]) (by rwa [hhooks]) he
  rw [accept_append_cons, hlater, hloaded, Bool.true_or, ← hloaded]

/-- An option that was not there and is after deliveries was made by one of them. -/
theorem Section.exists_makes (ls : List Delivery) {s : Section} (hread : s.hooks.read = none)
    (hcreate : ∀ hook, s.hooks.create = some hook → KeepsToOption hook) {n : String} {e' : Entry}
    (hnone : s.entry? n = none) (he' : Body.entry? (s.accept ls).toBody n = some e') :
    ∃ e later, s.Makes ls n e later := by
  induction ls generalizing s with
  | nil => exact absurd (hnone.symm.trans he') nofun
  | cons l ls ih =>
    have hhooks := (l.applyTo_spec s).1
    cases hstep : Body.entry? (l.applyTo s).toBody n with
    | none =>
      obtain ⟨e, later, before, m, rfl, hm⟩ :=
        ih (by rw [hhooks, hread]) (by rwa [hhooks]) hstep he'
      exact ⟨e, later, l :: before, m, rfl, hm⟩
    | some e =>
      have hl := (l.entry?_applyTo_of_none hread hcreate hnone hstep).1
      exact ⟨e, ls, [], l, rfl, hl, hnone, hstep⟩

/-! ## Sections with a read hook -/

/-- The body of a section after its read hook has taken deliveries. -/
def Body.hooked (hook : String → Option String → Script SetOutcome) (b : Body)
    (ls : List Delivery) : Body :=
  ls.foldl (fun b l => ((hook l.option l.value).run b).result.1) b

/-- A read hook takes all deliveries. -/
theorem Section.accept_of_read {s : Section} {hook : String → Option String → Script SetOutcome}
    (h : s.hooks.read = some hook) (ls : List Delivery) :
    s.accept ls = { s with toBody := s.toBody.hooked hook ls } := by
  induction ls generalizing s with
  | nil => rfl
  | cons l ls ih =>
    have hstep :
        l.applyTo s = { s with toBody := ((hook l.option l.value).run s.toBody).result.1 } := by
      unfold Delivery.applyTo Section.applyLine
      rw [h]
      rfl
    show (l.applyTo s).accept ls = _
    rw [hstep]
    exact ih (s := { s with toBody := ((hook l.option l.value).run s.toBody).result.1 }) h

/-- A hook that leaves the options there, and their default values. -/
def KeepsDefaults (hook : String → Option String → Script SetOutcome) : Prop :=
  ∀ name value b n e, b.entry? n = some e →
    ∃ e', Body.entry? ((hook name value).run b).result.1 n = some e' ∧ e'.default = e.default

/-- A hook that leaves the default values leaves them over all deliveries. -/
theorem KeepsDefaults.hooked {hook : String → Option String → Script SetOutcome}
    (h : KeepsDefaults hook) (ls : List Delivery) {b : Body} {n : String} {e : Entry}
    (he : b.entry? n = some e) :
    ∃ e', Body.entry? (b.hooked hook ls) n = some e' ∧ e'.default = e.default := by
  induction ls generalizing b e with
  | nil => exact ⟨e, he, rfl⟩
  | cons l ls ih =>
    obtain ⟨f, hf, hdefault⟩ := h l.option l.value b n e he
    obtain ⟨e', he', hdefault'⟩ := ih hf
    exact ⟨e', he', hdefault'.trans hdefault⟩

/-! ## The reload -/

/-- What a file is after a reload of a text, option by option. -/
structure Document.Reloaded (d : Document) (content : List UInt8) (d' : Document) : Prop where
  /-- An option that was there has its default value, if no line was its own, and else what its own
  lines made of the value that it had. -/
  kept : ∀ sectionName option s e, d.section? sectionName = some s → s.hooks.read = none →
    s.entry? option = some e →
    ∃ s', d'.section? sectionName = some s' ∧ s'.entry? option = some { e with
      value := if (d.inputs content sectionName option).isEmpty then e.default
        else (e.setAll (d.inputs content sectionName option)).value
      loaded := !(d.inputs content sectionName option).isEmpty }
  /-- An option that was not there is there now if and only if the hook made it on a line of its
  own, and is what its later lines made of the value that it was made with. -/
  made : ∀ sectionName option s, d.section? sectionName = some s → s.hooks.read = none →
    s.entry? option = none →
    ∃ s', d'.section? sectionName = some s' ∧ ∀ e', s'.entry? option = some e' ↔
      ∃ e later, s.unmark.Makes (d.deliveriesTo content sectionName) option e later ∧
        e' = { e with value := (e.setAll (Delivery.valuesFor option later)).value }
  /-- A section with a read hook is what the hook made of it with its lines. -/
  hooked : ∀ sectionName s hook, d.section? sectionName = some s → s.hooks.read = some hook →
    d'.section? sectionName =
      some { s with toBody := s.toBody.hooked hook (d.deliveriesTo content sectionName) }
  /-- No default value is another one, unless a read hook sets it. -/
  defaults : ∀ sectionName option s e, d.section? sectionName = some s →
    (∀ hook, s.hooks.read = some hook → KeepsDefaults hook) → s.entry? option = some e →
    ∃ s' e', d'.section? sectionName = some s' ∧ s'.entry? option = some e' ∧
      e'.default = e.default

/-- The options of a section without a read hook are reset after the deliveries. -/
theorem Section.entry?_resetMissing_accept (ls : List Delivery) {s : Section}
    (hread : s.hooks.read = none) (n : String) :
    (s.unmark.accept ls).resetMissing.result.entry? n =
      (Body.entry? (s.unmark.accept ls).toBody n).map fun e => e.resetMissing.result := by
  have hhooks : (s.unmark.accept ls).hooks = s.hooks :=
    (Delivery.hooks_accept ls s.unmark).trans s.hooks_unmark
  exact Section.entry?_resetMissing (by rw [hhooks, hread]) n

/-- An option of a section without a read hook, from the loss of its mark to its reset. -/
theorem Section.entry?_reload (ls : List Delivery) {s : Section} (hread : s.hooks.read = none)
    (hcreate : ∀ hook, s.hooks.create = some hook → KeepsToOption hook) {n : String} {e : Entry}
    (he : s.entry? n = some e) (hsound : e.Sound) :
    (s.unmark.accept ls).resetMissing.result.entry? n = some { e with
      value := if (Delivery.valuesFor n ls).isEmpty then e.default
        else (e.setAll (Delivery.valuesFor n ls)).value
      loaded := !(Delivery.valuesFor n ls).isEmpty } := by
  have hunmarked : s.unmark.entry? n = some { e with loaded := false } := by
    rw [Section.entry?_unmark hread, he]
    rfl
  have hread' : s.unmark.hooks.read = none := by rw [hooks_unmark, hread]
  have hcreate' : ∀ hook, s.unmark.hooks.create = some hook → KeepsToOption hook := by
    rwa [hooks_unmark]
  have haccept := Delivery.entry?_accept ls hread' hcreate' hunmarked
  rw [entry?_resetMissing_accept ls hread, haccept, Option.map_some]
  exact congrArg some (Entry.resetMissing_of_inputs hsound (Delivery.valuesFor n ls))

/-- An option of a section without a read hook that was not there before a reload is there after it
if and only if a line of its own made it, and is not reset. -/
theorem Section.entry?_reload_iff_makes (ls : List Delivery) {s : Section}
    (hread : s.hooks.read = none)
    (hcreate : ∀ hook, s.hooks.create = some hook → KeepsToOption hook) {n : String}
    (hnew : s.entry? n = none) (e' : Entry) :
    (s.unmark.accept ls).resetMissing.result.entry? n = some e' ↔
      ∃ e later, s.unmark.Makes ls n e later ∧
        e' = { e with value := (e.setAll (Delivery.valuesFor n later)).value } := by
  have hunmarked : s.unmark.entry? n = none := by
    rw [Section.entry?_unmark hread, hnew]
    rfl
  have hread' : s.unmark.hooks.read = none := by rw [hooks_unmark, hread]
  have hcreate' : ∀ hook, s.unmark.hooks.create = some hook → KeepsToOption hook := by
    rwa [hooks_unmark]
  -- The line that makes an option leaves its mark, so the reset passes it by.
  have hmade {e : Entry} {later : List Delivery} (h : s.unmark.Makes ls n e later) :
      (s.unmark.accept ls).resetMissing.result.entry? n =
        some { e with value := (e.setAll (Delivery.valuesFor n later)).value } := by
    rw [entry?_resetMissing_accept ls hread, h.entry?_accept hread' hcreate', Option.map_some]
    exact congrArg some (Entry.resetMissing_of_loaded (h.loaded hread' hcreate'))
  constructor
  · intro he'
    have haccept := he'
    rw [entry?_resetMissing_accept ls hread] at haccept
    obtain ⟨f, hf, -⟩ := Option.map_eq_some_iff.1 haccept
    obtain ⟨e, later, h⟩ := exists_makes ls hread' hcreate' hunmarked hf
    exact ⟨e, later, h, Option.some.inj (he'.symm.trans (hmade h))⟩
  · rintro ⟨e, later, h, rfl⟩
    exact hmade h

/-- A reload is a reading without marks, after which options are reset. -/
theorem Document.exists_load_of_reload {d d' : Document} {env : Environment} {disk disk' : Disk}
    {answer : Except Failure Report} (h : (d.reload env disk).result = (d', disk', answer)) :
    ∃ x, (d.markMissing.load env disk true).result = (x, disk', answer) ∧
      d' = x.resetMissing.result := by
  simp only [reload, Traced.result_bind, Traced.result_pure] at h
  generalize (d.markMissing.load env disk true).result = p at h
  obtain ⟨hreset, hrest⟩ := Prod.mk.inj h
  exact ⟨p.1, Prod.ext rfl hrest, hreset.symm⟩

/-- Where the text on the disk, which is made first if the file is missing, is read and not
rejected, a reload brings each option to what `Document.Reloaded` says, as long as the hooks that
make options keep to the option that they are called for. -/
theorem Document.reloaded_of_reload {r : Registry} (hr : r.Reachable) {d : Document}
    (hd : d ∈ r.documents)
    (hcreate : ∀ s ∈ d.sections, ∀ hook, s.hooks.create = some hook → KeepsToOption hook)
    {env : Environment} {disk disk' : Disk} {d' : Document} {report : Report}
    (h : (d.reload env disk).result = (d', disk', .ok report)) (hnone : report.rejected = none) :
    ∃ content, disk'.read? (d.path env) = some content ∧
      (disk.isThere (d.path env) = true → disk' = disk) ∧ d.Reloaded content d' := by
  have hwell := hr.wellFormed.documents d hd
  obtain ⟨x, hloaded, hreset⟩ := exists_load_of_reload h
  obtain ⟨content, c, stamp, hcontent, hthere, hx⟩ := load_spec hloaded hnone
  refine ⟨content, hcontent, hthere, ?_⟩
  -- Each section loses its marks, takes its deliveries and has its options reset.
  have hto (n : String) : d.markMissing.deliveriesTo content n = d.deliveriesTo content n := by
    unfold deliveriesTo
    rw [deliveries_markMissing]
  have hsection {n : String} {s : Section} (hs : d.section? n = some s) :
      d'.section? n = some (s.unmark.accept (d.deliveriesTo content n)).resetMissing.result := by
    have haccept := section?_accept (section?_markMissing hs) c (d.markMissing.deliveries content)
    have hx' : x.section? n = some (s.unmark.accept (d.deliveriesTo content n)) := by
      rw [hx, ← hto]
      exact haccept
    rw [hreset]
    exact section?_resetMissing hx'
  have hkept : ∀ sectionName option s e, d.section? sectionName = some s → s.hooks.read = none →
      s.entry? option = some e →
      ∃ s', d'.section? sectionName = some s' ∧ s'.entry? option = some { e with
        value := if (d.inputs content sectionName option).isEmpty then e.default
          else (e.setAll (d.inputs content sectionName option)).value
        loaded := !(d.inputs content sectionName option).isEmpty } := by
    intro sectionName option s e hs hread he
    have hmem := Roster.mem_of_find?_eq_some hs
    have hsound := ((hwell.sections s hmem).entries e (Roster.mem_of_find?_eq_some he)).sound
    exact ⟨_, hsection hs, Section.entry?_reload _ hread (hcreate s hmem) he hsound⟩
  have hhooked : ∀ sectionName s hook, d.section? sectionName = some s →
      s.hooks.read = some hook →
      d'.section? sectionName =
        some { s with toBody := s.toBody.hooked hook (d.deliveriesTo content sectionName) } := by
    intro sectionName s hook hs hread
    have hbody := Section.accept_of_read hread (d.deliveriesTo content sectionName)
    have hread' : (s.accept (d.deliveriesTo content sectionName)).hooks.read = some hook := by
      rw [Delivery.hooks_accept, hread]
    rw [hsection hs, Section.unmark_of_read hread, Section.resetMissing_of_read hread', hbody]
  refine ⟨hkept, ?_, hhooked, ?_⟩
  · intro sectionName option s hs hread hnew
    have hown := hcreate s (Roster.mem_of_find?_eq_some hs)
    exact ⟨_, hsection hs, Section.entry?_reload_iff_makes _ hread hown hnew⟩
  · intro sectionName option s e hs hkeeps he
    cases hread : s.hooks.read with
    | none =>
      obtain ⟨s', hs', he'⟩ := hkept sectionName option s e hs hread he
      exact ⟨s', _, hs', he', rfl⟩
    | some hook =>
      obtain ⟨e', he', hdefault⟩ :=
        (hkeeps hook hread).hooked (d.deliveriesTo content sectionName) he
      exact ⟨_, e', hhooked sectionName s hook hs hread, he', hdefault⟩

/-! ## A file with all three sorts of sections -/

/-- A new option leaves the others as they are. -/
theorem Body.entry?_define_of_ne {b : Body} {d : Definition} {n : String} (h : d.plainName ≠ n) :
    Body.entry? (b.define d).result.1 n = b.entry? n := by
  unfold Body.define
  split
  · rfl
  · split
    · rfl
    · next e he =>
      have hname : e.name = d.plainName := (Entry.wellFormed_of_ofDefinition? he).2
      exact Roster.find?_insert_of_ne (fun hn => h (hname.symm.trans hn)) b.entries

/-- A hook that makes a string with the value of the line, for names that declare no parent. -/
def making (name : String) (value : Option String) : Script SetOutcome :=
  let d : Definition := { name, kind := .string, nullable := true, value }
  if d.plainName = name then .define d fun answer => .finish (answer.map fun _ => .changed)
  else .finish (.error (.unknownOption "keys" name))

/-- The hook makes no other option than the one that it is called for. -/
theorem keepsToOption_making : KeepsToOption making := by
  intro name value b other hother
  unfold making
  dsimp only
  split
  · next hname =>
    refine Body.entry?_define_of_ne ?_
    rw [hname]
    exact hother.symm
  · rfl

/-- A hook that sets the option that it is called for. -/
def storing (name : String) (value : Option String) : Script SetOutcome :=
  .mutate name (.set value) fun answer =>
    .finish (answer.getD (.error (.unknownOption "raw" name)))

/-- The definition of a number whose value differs from its default value. -/
def counted (name : String) : Definition :=
  { name, kind := .integer, hi := 9, default := some "1", value := some "5" }

/-- A run that makes a file with a section that makes options, one without hooks and one that takes
its lines itself. -/
def stocking : List Operation :=
  [.addFile "app",
    .addSection "app" { name := "keys", hooks := { create := some making } },
    .addSection "app" { name := "look" },
    .addSection "app" { name := "raw", hooks := { read := some storing } },
    .edit "app" "look" (.define (counted "depth") fun _ => .define (counted "height") fun _ =>
      .define (counted "width") fun _ => .finish (.ok ())),
    .edit "app" "raw" (.define (counted "depth") fun _ => .finish (.ok ()))]

/-- The option that `counted` defines. -/
def count (sectionName name : String) : Entry :=
  { file := "app", sectionName, name, parent := none, domain := .integer 0 9, labels := [],
    description := "", nullable := false, default := some (.integer 1),
    value := some (.integer 5), check := none, tellsChange := false, tellsRemoval := false }

/-- The option that `making` defines. -/
def key (name value : String) : Entry :=
  { file := "app", sectionName := "keys", name, parent := none, domain := .string 0 0,
    labels := [], description := "", nullable := true, default := none,
    value := some (.string value), check := none, tellsChange := false, tellsRemoval := false }

/-- A section of that file. -/
def stock (name : String) (hooks : Hooks) (entries : List Entry) : Section :=
  { file := "app", name, canAdd := false, canDelete := false, palette := Palette.basic, entries,
    hooks }

/-- The file that `stocking` makes. -/
def stocked : Document where
  name := "app"
  priority := 1000
  sections := [stock "keys" { create := some making } [],
    stock "look" {} [count "look" "depth", count "look" "height", count "look" "width"],
    stock "raw" { read := some storing } [count "raw" "depth"]]

/-- A text with a good line for one option, a bad one for another, and lines that make options. -/
def stockText : List UInt8 :=
  Utf8.encode
    ("[keys]\nalpha = one\nbeta = three\nalpha = two\n[look]\ndepth = 7\nheight = tall\n" ++
      "[raw]\ndepth = 3\n").toList

/-- A disk with that text. -/
def stockDisk : Disk where
  nodes := [(["etc"], .directory), (["etc", "app.conf"], .file stockText 384 (.second 0))]

/-- The hook makes no option but the one it is asked for. -/
theorem keepsToOption_stocked : ∀ s ∈ stocked.sections, ∀ hook, s.hooks.create = some hook →
    KeepsToOption hook := by
  intro s hs hook hhook
  simp only [stocked, List.mem_cons, List.not_mem_nil, or_false] at hs
  rcases hs with rfl | rfl | rfl
  · obtain rfl := Option.some.inj hhook
    exact keepsToOption_making
  · cases hhook
  · cases hhook

/-- The lines of that text, by the options that were there. -/
theorem inputs_stocked :
    stocked.inputs stockText "look" "depth" = [some "7"] ∧
      stocked.inputs stockText "look" "height" = [some "tall"] ∧
      stocked.inputs stockText "look" "width" = [] := by
  decide +kernel

/-- The lines of that text for the section with the hook. -/
theorem deliveriesTo_stocked :
    stocked.deliveriesTo stockText "keys" =
      [⟨"keys", "alpha", some "one"⟩, ⟨"keys", "beta", some "three"⟩,
        ⟨"keys", "alpha", some "two"⟩] := by
  decide +kernel

/-- The option with the good line has its value, the one with the bad line has the value that it
had, and the one without a line has its default value. Of the options that the hook makes, one has
the value of its only line, and the other that of the line after the one that made it. -/
theorem reloaded_of_reload_stocked :
    ∃ d' disk' report, (stocked.reload { dir := "/etc" } stockDisk).result =
        (d', disk', .ok report) ∧
      ∃ s', d'.section? "look" = some s' ∧
        s'.entry? "depth" = some { count "look" "depth" with value := some (.integer 7) } ∧
        s'.entry? "height" = some (count "look" "height") ∧
        s'.entry? "width" =
          some { count "look" "width" with value := some (.integer 1), loaded := false } ∧
      ∃ k, d'.section? "keys" = some k ∧
        k.entry? "alpha" = some (key "alpha" "two") ∧
        k.entry? "beta" = some (key "beta" "three") := by
  have hreachable : Registry.Reachable { env := { dir := "/etc" }, documents := [stocked] } :=
    ⟨{ dir := "/etc" }, stocking, {}, rfl⟩
  have hlook : stocked.section? "look" = some (stock "look" {}
      [count "look" "depth", count "look" "height", count "look" "width"]) := rfl
  have hok : ((stocked.reload { dir := "/etc" } stockDisk).result.2.2.toOption.any
      fun report => report.rejected.isNone) = true := by decide +kernel
  generalize hresult : (stocked.reload { dir := "/etc" } stockDisk).result = result at hok ⊢
  obtain ⟨d', disk', answer⟩ := result
  cases answer with
  | error failure => cases hok
  | ok report =>
    obtain ⟨content, hcontent, hdisk, hreloaded⟩ := Document.reloaded_of_reload hreachable
      (List.mem_singleton_self stocked) keepsToOption_stocked hresult
      (Option.isNone_iff_eq_none.1 hok)
    have hthere : stockDisk.isThere (stocked.path { dir := "/etc" }) = true := by decide +kernel
    have htext : stockDisk.read? (stocked.path { dir := "/etc" }) = some stockText := by
      decide +kernel
    rw [hdisk hthere, htext] at hcontent
    obtain rfl := Option.some.inj hcontent
    -- The options that were there have what their lines made of them.
    obtain ⟨hdepth, hheight, hwidth⟩ := inputs_stocked
    have hseven : ((count "look" "depth").setAll [some "7"]).value = some (.integer 7) := by
      decide +kernel
    have htall : ((count "look" "height").setAll [some "tall"]).value = some (.integer 5) := by
      decide +kernel
    obtain ⟨s', hs', hd⟩ := hreloaded.kept "look" "depth" _ (count "look" "depth") hlook rfl rfl
    obtain ⟨t, ht, hh⟩ := hreloaded.kept "look" "height" _ (count "look" "height") hlook rfl rfl
    obtain ⟨u, hu, hw⟩ := hreloaded.kept "look" "width" _ (count "look" "width") hlook rfl rfl
    obtain rfl := Option.some.inj (hs'.symm.trans ht)
    obtain rfl := Option.some.inj (hs'.symm.trans hu)
    rw [hdepth, hseven] at hd
    rw [hheight, htall] at hh
    rw [hwidth] at hw
    -- The others were made by the hook, on the first and on the second line of their section.
    have htwo : ((key "alpha" "one").setAll [some "two"]).value = some (.string "two") := by
      decide +kernel
    obtain ⟨k, hk, ha⟩ := hreloaded.made "keys" "alpha" _ rfl rfl rfl
    obtain ⟨k', hk', hb⟩ := hreloaded.made "keys" "beta" _ rfl rfl rfl
    obtain rfl := Option.some.inj (hk.symm.trans hk')
    rw [deliveriesTo_stocked] at ha hb
    have halpha := (ha _).2 ⟨key "alpha" "one",
      [⟨"keys", "beta", some "three"⟩, ⟨"keys", "alpha", some "two"⟩],
      ⟨[], _, rfl, rfl, rfl, rfl⟩, rfl⟩
    have hbeta := (hb _).2 ⟨key "beta" "three", [⟨"keys", "alpha", some "two"⟩],
      ⟨[⟨"keys", "alpha", some "one"⟩], _, rfl, rfl, rfl, rfl⟩, rfl⟩
    exact ⟨d', disk', report, rfl, s', hs', hd, hh, hw, k, hk,
      halpha.trans (congrArg (fun value => some { key "alpha" "one" with value }) htwo), hbeta⟩

end TypedConfig
