import TypedConfig.Proofs.Convergence
import TypedConfig.Proofs.Saving

/-!
# What a missing file is made from

A reading makes a missing file first. This write asks for default values, but only hooks can give
them: a section without hooks is written with the values that its options have. So the new file
lists the current values, and reading it back brings the options to what they show already
(`Document.current_of_bootstrapped`). Default values are written and shown then if and only if they
were shown before, which is not always the case (`Document.not_bootstrapsDefaults_single`).
-/

namespace TypedConfig

/-! ## Default values -/

/-- What a section would show with default values. -/
def Section.shownDefaults (s : Section) : String × List (String × Option String) :=
  (s.name, s.entries.map fun e => (e.name, e.defaultText))

namespace Document

/-- What a file would show with default values. -/
def shownDefaults (d : Document) : List (String × List (String × Option String)) :=
  d.sections.map Section.shownDefaults

/-- Every option shows its default value. -/
def ShowsDefaults (d : Document) : Prop :=
  d.shown = d.shownDefaults

/-- The file with default values, but for options that are left to a read hook. -/
def defaulted (d : Document) : Document :=
  { d with sections := d.sections.map Section.reverted }

/-- Where a reading makes the missing file, the file lists each option with its default value, and
afterwards every option shows it. -/
def BootstrapsDefaults (d : Document) (env : Environment) (disk : Disk) : Prop :=
  ∀ d' disk' report, (d.read env disk).result = (d', disk', .ok report) →
    report.bootstrapped = true →
      disk'.read? (d.path env) =
          some (Utf8.encode (Text.unlines (d.defaulted.lines env.settings))) ∧
        d'.ShowsDefaults

end Document

/-- Values of one domain that show the same have the same text in a file. -/
theorem Domain.formatForFile_eq_of_format_eq {d : Domain} {v w : Value} (hv : d.Holds v)
    (hw : d.Holds w) (h : d.format v = d.format w) : d.formatForFile v = d.formatForFile w := by
  cases d <;> cases v <;> try contradiction
  all_goals cases w <;> try contradiction
  case string.string.string => exact congrArg (fun text => "\"" ++ text ++ "\"") h
  all_goals exact h

/-- An option that shows its default value has the line that it would have with this value. -/
theorem Entry.line_default {e : Entry} (he : e.Sound) (h : e.valueText = e.defaultText) :
    ({ e with value := e.default, loaded := false } : Entry).line = e.line := by
  have htext : e.default.map e.domain.formatForFile = e.fileText := by
    have hvalue := he.value
    have hdefault := he.default
    unfold Cell.valueText Cell.defaultText at h
    unfold Cell.fileText
    cases hv : e.value with
    | none =>
      rw [hv] at h
      rw [Option.map_eq_none_iff.1 h.symm]
    | some v =>
      -- Both show the same, but need not be the same value: a palette may have a name twice.
      rw [hv] at h hvalue
      obtain ⟨w, hw, hsame⟩ := Option.map_eq_some_iff.1 h.symm
      rw [hw] at hdefault
      rw [hw]
      exact congrArg some (Domain.formatForFile_eq_of_format_eq hdefault hvalue hsame)
  exact congrArg (Line.optionLine e.name) htext

/-- A section that shows default values has the lines that it would have with them. -/
theorem Section.lines_reverted {s : Section} (hsound : ∀ e ∈ s.entries, e.Sound)
    (h : s.shown = s.shownDefaults) : s.reverted.lines = s.lines := by
  unfold reverted
  split
  · rfl
  · have hshown := List.map_inj_left.1 (congrArg Prod.snd h)
    have hlines : ∀ e ∈ s.entries,
        ({ e with value := e.default, loaded := false } : Entry).line = e.line :=
      fun e he => Entry.line_default (hsound e he) (congrArg Prod.snd (hshown e he))
    unfold lines
    rw [List.map_map]
    exact congrArg (fun ls => [] :: Line.headerLine s.name :: ls) (List.map_congr_left hlines)

namespace Document

variable {d d' : Document} {env : Environment} {disk disk' : Disk}

/-- A file that shows default values has the lines that it would have with them. -/
theorem lines_defaulted (hsound : ∀ s ∈ d.sections, ∀ e ∈ s.entries, e.Sound)
    (h : d.ShowsDefaults) (settings : Settings) :
    d.defaulted.lines settings = d.lines settings := by
  have hshown : ∀ s ∈ d.sections, s.shown = s.shownDefaults := List.map_inj_left.1 h
  have hlines : d.defaulted.sections.flatMap Section.lines = d.sections.flatMap Section.lines := by
    rw [defaulted, List.flatMap_map]
    exact List.flatMap_congr fun s hs => Section.lines_reverted (hsound s hs) (hshown s hs)
  exact congrArg (fun ls => (settings.comment d.fileName).map ('#' :: ·) ++ (d.versionLines ++ ls))
    hlines

/-- Deliveries leave the default values as they are. -/
theorem shownDefaults_accept (hplain : ∀ s ∈ d.sections, s.IsPlain) (c : Cursor)
    (ls : List Delivery) : (d.accept c ls).shownDefaults = d.shownDefaults := by
  have houtline (s : Section) : s.outline.shownDefaults = s.shownDefaults := by
    unfold Section.outline Section.shownDefaults
    rw [List.map_map]
    rfl
  have hsame := congrArg (List.map Section.shownDefaults) (Delivery.outline_foldl_applyIn ls hplain)
  simp only [List.map_map, Function.comp_def, houtline] at hsame
  exact hsame

/-! ## The file that is made -/

/-- A file is made only where it is missing, and from what it gives if asked for default values. -/
theorem installs_of_bootstrap (h : (d.bootstrap env disk).result = (d', disk', true)) :
    disk.isThere (d.path env) = false ∧ ∃ text, (d.draft env.settings true).result = .ok text ∧
      (furnished env disk).Installs (d.path env) (temporaryPath (d.path env))
        (Utf8.encode text.toList) (env.settings.mode % Disk.modeCount) disk' := by
  unfold bootstrap at h
  dsimp only at h
  split at h
  · cases h
  · next hmissing =>
    refine ⟨Bool.not_eq_true _ ▸ hmissing, ?_⟩
    rw [Traced.result_bind] at h
    generalize hsave : (d.save env disk true).result = saved at h
    obtain ⟨x, made, answer⟩ := saved
    cases answer with
    | error failure => cases h
    | ok _ =>
      obtain ⟨⟨text, hdraft, hinstalls⟩, -⟩ := save_spec true hsave
      cases h
      exact ⟨text, hdraft, hinstalls⟩

/-- Without hooks the file that was made holds the lines of the current values. -/
theorem content_of_bootstrap (hooks : ∀ s ∈ d.sections, s.hooks = {})
    (h : (d.bootstrap env disk).result = (d', disk', true)) {content : List UInt8}
    (hread : disk'.read? (d.path env) = some content) :
    content = Utf8.encode (Text.unlines (d.lines env.settings)) := by
  obtain ⟨-, text, hdraft, hinstalls⟩ := installs_of_bootstrap h
  obtain ⟨ns, last, last', hbeside⟩ := d.exists_beside env
  obtain ⟨written, hwritten, hlines⟩ := exists_draft_eq hooks env.settings true
  obtain rfl := Except.ok.inj (hdraft.symm.trans hwritten)
  rw [← hlines]
  exact hinstalls.eq_of_read? hbeside.names hbeside.plain hread

/-- Where the new file lists the current values and the options go on showing them, they are the
default values if and only if the options showed these before. -/
theorem bootstrapsDefaults_iff (hsound : ∀ s ∈ d.sections, ∀ e ∈ s.entries, e.Sound)
    {report : Report} (h : (d.read env disk).result = (d', disk', .ok report))
    (hmade : report.bootstrapped = true)
    (hread : disk'.read? (d.path env) = some (Utf8.encode (Text.unlines (d.lines env.settings))))
    (hshown : d'.shown = d.shown) (hdefaults : d'.shownDefaults = d.shownDefaults) :
    d.BootstrapsDefaults env disk ↔ d.ShowsDefaults := by
  constructor
  · intro hall
    have hafter : d'.ShowsDefaults := (hall d' disk' report h hmade).2
    calc d.shown = d'.shown := hshown.symm
      _ = d'.shownDefaults := hafter
      _ = d.shownDefaults := hdefaults
  · intro hbefore d₂ disk₂ report₂ h₂ _
    obtain ⟨rfl, hrest⟩ := Prod.mk.inj (h.symm.trans h₂)
    obtain ⟨rfl, -⟩ := Prod.mk.inj hrest
    rw [lines_defaulted hsound hbefore]
    refine ⟨hread, ?_⟩
    calc d'.shown = d.shown := hshown
      _ = d.shownDefaults := hbefore
      _ = d'.shownDefaults := hdefaults.symm

/-- Whatever file without hooks a host can bring about and whatever stands on the disk, if a reading
makes the file, it was missing before and holds exactly the lines of the current values afterwards.
If these are lines that can hold the values, they are read without a warning and all options show
what they showed. So default values are written and shown if and only if they were shown before. -/
theorem current_of_bootstrapped {r : Registry} (hr : r.Reachable) (hd : d ∈ r.documents)
    (hooks : ∀ s ∈ d.sections, s.hooks = {}) {report : Report}
    (h : (d.read env disk).result = (d', disk', .ok report)) (hmade : report.bootstrapped = true) :
    disk.isThere (d.path env) = false ∧
      disk'.read? (d.path env) = some (Utf8.encode (Text.unlines (d.lines env.settings))) ∧
      (d.CanWrite → env.settings.CanWrite →
        report.warnings = [] ∧ report.rejected = none ∧ d'.shown = d.shown ∧
          (d.BootstrapsDefaults env disk ↔ d.ShowsDefaults)) := by
  have hwell := hr.wellFormed.documents d hd
  have hsound : ∀ s ∈ d.sections, ∀ e ∈ s.entries, e.Sound :=
    fun s hs e he => ((hwell.sections s hs).entries e he).sound
  have hplain : ∀ s ∈ d.sections, s.IsPlain := by
    intro s hs
    unfold Section.IsPlain
    rw [hooks s hs]
    exact ⟨rfl, rfl⟩
  obtain ⟨stamp, disk₁, made, content, p, hbootstrap, hread, hparse, hdocument, rfl, rfl⟩ :=
    exists_parse_of_load h
  obtain rfl : made = true := hmade
  have hcontent := content_of_bootstrap hooks hbootstrap hread
  -- What was read is there still.
  have hkept : p.2.1.read? (d.path env) = some content := by
    rw [← hread, ← hparse]
    exact read?_parse { d with stamp } disk₁ (d.path env) content
  refine ⟨(installs_of_bootstrap hbootstrap).1, hkept.trans (congrArg some hcontent),
    fun hwrite hsettings => ?_⟩
  have hform : ({ d with stamp } : Document).SameForm d := ⟨rfl, rfl⟩
  obtain ⟨after, report, hafter, hwarnings, hrejected, -, hshown⟩ :=
    parse_lines hwell hwrite hsettings hform disk₁ (d.path env)
  rw [← hcontent] at hafter
  -- The lines act through deliveries only, which leave the default values alone.
  obtain ⟨c, haccept⟩ := exists_accept_of_parse { d with stamp } disk₁ (d.path env) content
  obtain rfl := hparse.symm.trans hafter
  rw [hafter] at haccept
  have hsame : d'.shown = d.shown := by
    rw [hdocument]
    exact hshown
  have hdefaults : d'.shownDefaults = d.shownDefaults := by
    rw [hdocument, haccept]
    exact shownDefaults_accept hplain c _
  have hlines := hkept.trans (congrArg some hcontent)
  exact ⟨hwarnings, hrejected, hsame,
    bootstrapsDefaults_iff hsound h rfl hlines hsame hdefaults⟩

end Document

/-- A run that makes a file with a number whose value differs from its default value. -/
def singling : List Operation :=
  [.addFile "app", .addSection "app" { name := "look" },
    .edit "app" "look" (.define (counted "depth") fun _ => .finish (.ok ()))]

/-- The file that `singling` makes. -/
def single : Document where
  name := "app"
  priority := 1000
  sections := [stock "look" {} [count "look" "depth"]]

/-- A run makes the file. -/
theorem reachable_single :
    Registry.Reachable { env := { dir := "/etc" }, documents := [single] } :=
  ⟨{ dir := "/etc" }, singling, {}, rfl⟩

/-- None of its sections has a hook. -/
theorem hooks_single : ∀ s ∈ single.sections, s.hooks = {} := by
  intro s hs
  rw [List.mem_singleton.1 hs]
  rfl

/-- A disk with an empty directory for the files. -/
def emptyDisk : Disk where
  nodes := [(["etc"], .directory)]

/-- There a reading makes the file, and the option still has its value. -/
theorem read_single :
    ((single.read { dir := "/etc" } emptyDisk).result.2.2.toOption.any
        fun report => report.bootstrapped) = true ∧
      (single.read { dir := "/etc" } emptyDisk).result.1.shown ≠
        (single.read { dir := "/etc" } emptyDisk).result.1.shownDefaults := by
  decide +kernel

/-- The new file has the value 5, which the option keeps, and not the default value 1. -/
theorem current_of_bootstrapped_single :
    ∃ d' disk' report, (single.read { dir := "/etc" } emptyDisk).result =
        (d', disk', .ok report) ∧ report.bootstrapped = true ∧
      disk'.read? "/etc/app.conf" = some (Utf8.encode (Text.unlines (single.lines {}))) ∧
      "depth = 5".toList ∈ single.lines {} ∧
      d'.shown = [("look", [("depth", some "5")])] := by
  have hok := read_single.1
  generalize hresult : (single.read { dir := "/etc" } emptyDisk).result = result at hok ⊢
  obtain ⟨d', disk', answer⟩ := result
  cases answer with
  | error failure => cases hok
  | ok report =>
    obtain ⟨-, hread, hcurrent⟩ := Document.current_of_bootstrapped reachable_single
      (List.mem_singleton_self single) hooks_single hresult hok
    have hwrite : single.CanWrite := by
      refine ⟨by decide, fun s hs => ?_⟩
      obtain rfl := List.mem_singleton.1 hs
      refine ⟨rfl, ⟨by decide, by decide⟩, by decide, by decide, fun e he => ?_⟩
      obtain rfl := List.mem_singleton.1 he
      refine ⟨rfl, ⟨by decide, by decide, by decide, ⟨by decide, by decide⟩⟩,
        ⟨by decide, by decide⟩, ?_⟩
      rintro v ⟨⟩
      trivial
    obtain ⟨-, -, hshown, -⟩ := hcurrent hwrite ⟨by decide, by decide, by decide⟩
    have hpath : single.path { dir := "/etc" } = "/etc/app.conf" := by decide +kernel
    rw [hpath] at hread
    exact ⟨d', disk', report, rfl, hok, hread, by decide +kernel, hshown⟩

/-- So a reading that makes this file does not give its option the default value. -/
theorem Document.not_bootstrapsDefaults_single :
    (∃ r : Registry, r.Reachable ∧ single ∈ r.documents) ∧
      (∀ s ∈ single.sections, s.hooks = {}) ∧
      emptyDisk.isThere (single.path { dir := "/etc" }) = false ∧
      ¬ single.BootstrapsDefaults { dir := "/etc" } emptyDisk := by
  refine ⟨⟨_, reachable_single, List.mem_singleton_self single⟩, hooks_single, by decide +kernel,
    fun hall => ?_⟩
  obtain ⟨hok, hother⟩ := read_single
  generalize hresult : (single.read { dir := "/etc" } emptyDisk).result = result at hok hother
  obtain ⟨d', disk', answer⟩ := result
  cases answer with
  | error failure => cases hok
  | ok report => exact hother (hall d' disk' report hresult hok).2

end TypedConfig
