import TypedConfig.Proofs.Routing

/-!
# What a text does to one option

Deliveries to one section do nothing to another (`Delivery.find?_foldl_applyIn`), and deliveries to
one option do nothing to another (`Delivery.entry?_accept`), as long as the hooks that make options
keep to the option that they are called for. So what a text does to an option is what its own lines
do, one after the other. Where no hook takes part, nothing but values changes
(`Document.value_after_parse`).
-/

namespace TypedConfig

/-- A hook that touches no option but the one that it is called for. -/
def KeepsToOption (hook : String → Option String → Script SetOutcome) : Prop :=
  ∀ name value b other, other ≠ name →
    Body.entry? ((hook name value).run b).result.1 other = b.entry? other

/-- The values for one option among deliveries to its section. -/
def Delivery.valuesFor (option : String) (ls : List Delivery) : List (Option String) :=
  (ls.filter fun l => l.option = option).map fun l => l.value

/-- What a text has for one section, in the order of the lines. -/
def Document.deliveriesTo (d : Document) (bytes : List UInt8) (sectionName : String) :
    List Delivery :=
  (d.deliveries bytes).filter fun l => l.sectionName = sectionName

/-- What a text has for one option: the values of its lines, in their order. -/
def Document.inputs (d : Document) (bytes : List UInt8) (sectionName option : String) :
    List (Option String) :=
  Delivery.valuesFor option (d.deliveriesTo bytes sectionName)

/-- A section after deliveries to it. -/
def Section.accept (s : Section) (ls : List Delivery) : Section :=
  ls.foldl (fun s l => l.applyTo s) s

/-- A section with neither a read hook nor one that makes options. -/
def Section.IsPlain (s : Section) : Prop :=
  s.hooks.read = none ∧ s.hooks.create = none

/-- A plain section has no hook that could touch a wrong option. -/
theorem Section.IsPlain.keepsToOption {s : Section} (h : s.IsPlain) :
    ∀ hook, s.hooks.create = some hook → KeepsToOption hook := by
  intro hook hhook
  rw [h.2] at hhook
  cases hhook

/-- The option without its value and the mark of its lines. -/
def Entry.outline (e : Entry) : Entry :=
  { e with value := none, loaded := true }

/-- The section without the values of its options. -/
def Section.outline (s : Section) : Section :=
  { s with entries := s.entries.map Entry.outline }

/-- The file without the values of its options and the version that was read. -/
def Document.outline (d : Document) : Document :=
  { d with versionRead := 1, sections := d.sections.map Section.outline }

namespace Delivery

/-! ## Sections -/

/-- A delivery is to the section of its name. -/
theorem find?_applyIn (l : Delivery) (ss : List Section) (n : String) :
    Roster.find? n (l.applyIn ss) =
      (Roster.find? n ss).map fun s => if l.sectionName = n then l.applyTo s else s := by
  unfold applyIn
  by_cases hn : l.sectionName = n
  · subst hn
    cases hs : Roster.find? l.sectionName ss with
    | none => simp only [hs, Option.map_none]
    | some s =>
      have hname := (l.applyTo_spec s).2.trans (Roster.name_of_find?_eq_some hs)
      simp only [if_true, Option.map_some]
      exact Roster.find?_replace_self hname (by rw [hs]; rfl)
  · simp only [if_neg hn, Option.map_id']
    split
    · next s hs =>
      have hname := (l.applyTo_spec s).2.trans (Roster.name_of_find?_eq_some hs)
      exact Roster.find?_replace_of_ne hname hn ss
    · rfl

/-- A section is after deliveries what its own deliveries make of it. -/
theorem find?_foldl_applyIn (ls : List Delivery) (ss : List Section) (n : String) :
    Roster.find? n (ls.foldl (fun ss l => l.applyIn ss) ss) =
      (Roster.find? n ss).map fun s => s.accept (ls.filter fun l => l.sectionName = n) := by
  induction ls generalizing ss with
  | nil => simp [Section.accept]
  | cons l ls ih =>
    rw [List.foldl_cons, ih, find?_applyIn, Option.map_map]
    refine Option.map_congr fun s _ => ?_
    by_cases hn : l.sectionName = n
    · simp [hn, Section.accept]
    · simp [hn]

/-- Deliveries exchange no hook. -/
theorem hooks_accept (ls : List Delivery) (s : Section) : (s.accept ls).hooks = s.hooks := by
  induction ls generalizing s with
  | nil => rfl
  | cons l ls ih => exact (ih _).trans (l.applyTo_spec s).1

/-! ## Options -/

/-- A line that reaches an option changes that one alone. -/
theorem entry?_change {b : Body} {name : String} {e : Entry} (he : b.entry? name = some e)
    (input : Option String) (n : String) :
    Body.entry? (b.change name fun e => do
      let (e, answer) ← e.set input
      pure ({ e with loaded := true }, answer)).result.1 n =
        if name = n then some (e.reach input) else b.entry? n := by
  have hname : (e.reach input).name = name := by
    rw [Entry.reach, Entry.set_entry]
    exact Roster.name_of_find?_eq_some he
  unfold Body.change
  rw [he]
  by_cases hn : name = n
  · subst hn
    rw [if_pos rfl]
    exact Roster.find?_replace_self hname (by rw [← Body.entry?, he]; rfl)
  · rw [if_neg hn]
    exact Roster.find?_replace_of_ne hname hn b.entries

/-- A delivery to a section without a read hook changes an option if it is for that one. -/
theorem entry?_applyTo (l : Delivery) {s : Section} (hread : s.hooks.read = none)
    (hcreate : ∀ hook, s.hooks.create = some hook → KeepsToOption hook) {n : String} {e : Entry}
    (he : s.entry? n = some e) :
    Body.entry? (l.applyTo s).toBody n = some (if l.option = n then e.reach l.value else e) := by
  unfold applyTo Section.applyLine
  rw [hread]
  dsimp only
  cases hown : s.entry? l.option with
  | some f =>
    have hchange := entry?_change hown l.value n
    by_cases hn : l.option = n
    · subst hn
      obtain rfl := Option.some.inj (hown.symm.trans he)
      rw [if_pos rfl] at hchange ⊢
      exact hchange
    · rw [if_neg hn] at hchange ⊢
      exact hchange.trans he
  | none =>
    -- The option is there and the delivered one is not, so they have different names.
    have hne : l.option ≠ n := by
      rintro rfl
      rw [he] at hown
      cases hown
    rw [if_neg hne]
    cases hhook : s.hooks.create with
    | none => exact he
    | some hook => exact (hcreate hook hhook _ _ _ _ hne.symm).trans he

/-- An option is after deliveries what its own lines make of it. -/
theorem entry?_accept (ls : List Delivery) {s : Section} (hread : s.hooks.read = none)
    (hcreate : ∀ hook, s.hooks.create = some hook → KeepsToOption hook) {n : String} {e : Entry}
    (he : s.entry? n = some e) :
    Body.entry? (s.accept ls).toBody n = some { e with
      value := (e.setAll (valuesFor n ls)).value
      loaded := e.loaded || !(valuesFor n ls).isEmpty } := by
  have hreach :
      Body.entry? (s.accept ls).toBody n = some ((valuesFor n ls).foldl Entry.reach e) := by
    -- Each delivery gives the option of the next one, under the same hooks.
    induction ls generalizing s e with
    | nil => exact he
    | cons l ls ih =>
      have hhooks := (l.applyTo_spec s).1
      have hentry := l.entry?_applyTo hread hcreate he
      have hstep := ih (by rw [hhooks, hread]) (by rwa [hhooks]) hentry
      show Body.entry? ((l.applyTo s).accept ls).toBody n = _
      rw [hstep]
      by_cases hn : l.option = n
      · simp [hn, valuesFor]
      · simp [hn, valuesFor]
  rw [hreach, Entry.foldl_reach, Entry.setAll_eq]

/-! ## What stays -/

/-- A delivery to a plain section changes no outline. -/
theorem outline_applyTo (l : Delivery) {s : Section} (h : s.IsPlain) :
    (l.applyTo s).outline = s.outline := by
  unfold applyTo Section.applyLine
  rw [h.1, h.2]
  dsimp only
  cases he : s.entry? l.option with
  | none => rfl
  | some e =>
    have hentries : (Roster.replace l.option (e.reach l.value) s.entries).map Entry.outline =
        s.entries.map Entry.outline := by
      refine Roster.map_replace he ?_
      rw [Entry.reach, Entry.set_entry]
      rfl
    simp only [Section.onBody, Body.change, he, Section.outline]
    exact congrArg (fun entries => { s with entries : Section }) hentries

/-- Deliveries to plain sections change no outline. -/
theorem outline_foldl_applyIn (ls : List Delivery) {ss : List Section}
    (h : ∀ s ∈ ss, s.IsPlain) :
    (ls.foldl (fun ss l => l.applyIn ss) ss).map Section.outline = ss.map Section.outline := by
  induction ls generalizing ss with
  | nil => rfl
  | cons l ls ih =>
    have hstep : (l.applyIn ss).map Section.outline = ss.map Section.outline ∧
        ∀ s ∈ l.applyIn ss, s.IsPlain := by
      unfold applyIn
      split
      · next s hs =>
        have hplain := h s (Roster.mem_of_find?_eq_some hs)
        refine ⟨Roster.map_replace hs (outline_applyTo l hplain), fun t ht => ?_⟩
        rcases Roster.mem_of_mem_replace ht with rfl | ht
        · unfold Section.IsPlain
          rw [(l.applyTo_spec s).1]
          exact hplain
        · exact h t ht
      · exact ⟨rfl, h⟩
    rw [List.foldl_cons, ih hstep.2, hstep.1]

end Delivery

/-- A section of a file after deliveries is the section after its own ones. -/
theorem Document.section?_accept {d : Document} {sectionName : String} {s : Section}
    (hs : d.section? sectionName = some s) (c : Cursor) (ls : List Delivery) :
    (d.accept c ls).section? sectionName =
      some (s.accept (ls.filter fun l => l.sectionName = sectionName)) := by
  have hsection := Delivery.find?_foldl_applyIn ls d.sections sectionName
  have hfound : Roster.find? sectionName d.sections = some s := hs
  rw [hfound] at hsection
  exact hsection

/-- A text that is not rejected gives each option of plain sections the values of its own lines, one
after the other, where a refused value leaves the option as it was. Which lines these are is told by
`Document.inputs`. No other line changes the option, and nothing else of the file changes but the
version that was read. -/
theorem Document.value_after_parse {d : Document} (hplain : ∀ s ∈ d.sections, s.IsPlain)
    (disk : Disk) (origin : String) (bytes : List UInt8)
    (h : (d.parse disk origin bytes).result.2.2.rejected = none) :
    (d.parse disk origin bytes).result.1.outline = d.outline ∧
      ∀ sectionName option s e, d.section? sectionName = some s → s.entry? option = some e →
        ∃ s', (d.parse disk origin bytes).result.1.section? sectionName = some s' ∧
          s'.entry? option = some { e with
            value := (e.setAll (d.inputs bytes sectionName option)).value
            loaded := e.loaded || !(d.inputs bytes sectionName option).isEmpty } := by
  rw [d.parse_eq_accept disk origin bytes h]
  constructor
  · have houtline := Delivery.outline_foldl_applyIn (d.deliveries bytes) hplain
    simp only [outline, accept, houtline]
  · intro sectionName option s e hs he
    have hown := hplain s (Roster.mem_of_find?_eq_some hs)
    exact ⟨_, section?_accept hs _ (d.deliveries bytes),
      Delivery.entry?_accept _ hown.1 hown.keepsToOption he⟩

/-- An integer option of the file `app`. -/
def sizeIn (sectionName : String) : Entry where
  file := "app"
  sectionName := sectionName
  name := "size"
  parent := none
  domain := .integer 0 9
  labels := []
  description := ""
  nullable := false
  default := some (.integer 1)
  value := some (.integer 1)
  check := none
  tellsChange := false
  tellsRemoval := false

/-- A section of the file `app` with that option. -/
def holding (name : String) : Section where
  file := "app"
  name := name
  canAdd := false
  canDelete := false
  palette := ⟨[]⟩
  entries := [sizeIn name]
  hooks := {}

/-- What lines of version one were called. -/
def modernize (line : LineData) : LineData :=
  { line with
    sectionName := if line.sectionName = "appearance" then "look" else line.sectionName
    option := if line.option = some "breadth" then some "size" else line.option }

/-- A file of version two. -/
def renamed : Document where
  name := "app"
  priority := 1000
  version := 2
  migration := some (.single modernize)
  sections := [holding "look", holding "plugins"]

/-- A text of version one with good and bad lines for both sections and for none. -/
def olderText : List UInt8 :=
  Utf8.encode ("[appearance]\nbreadth = 3\nsize = many\n[plugins\n\\size = \"5\"\n[none]\n" ++
    "size = 8\n[plugins]\nsize = 2\n  [look] old\nsize = ++2\nsizes = 9\n").toList

/-- Of the lines of this text, four are for the one `size` and one is for the other. -/
theorem value_after_parse_renamed :
    renamed.inputs olderText "look" "size" = [some "3", some "many", some "5", some "++2"] ∧
      renamed.inputs olderText "plugins" "size" = [some "2"] ∧
      ∃ s', (renamed.parse {} "app.conf" olderText).result.1.section? "look" = some s' ∧
        s'.entry? "size" = some { sizeIn "look" with value := some (.integer 7) } := by
  have hlook : renamed.inputs olderText "look" "size" =
      [some "3", some "many", some "5", some "++2"] := by decide +kernel
  have hplugins : renamed.inputs olderText "plugins" "size" = [some "2"] := by decide +kernel
  have hplain : ∀ s ∈ renamed.sections, s.IsPlain := by
    unfold Section.IsPlain
    decide +kernel
  have hnone : (renamed.parse {} "app.conf" olderText).result.2.2.rejected = none := by
    decide +kernel
  have hvalue : ((sizeIn "look").setAll [some "3", some "many", some "5", some "++2"]).value =
      some (.integer 7) := by decide +kernel
  obtain ⟨_, hvalues⟩ := Document.value_after_parse hplain {} "app.conf" olderText hnone
  obtain ⟨s', hs', he'⟩ := hvalues "look" "size" (holding "look") (sizeIn "look")
    (Roster.find?_cons_self rfl) (Roster.find?_cons_self rfl)
  rw [hlook, hvalue] at he'
  exact ⟨hlook, hplugins, s', hs', he'⟩

end TypedConfig
