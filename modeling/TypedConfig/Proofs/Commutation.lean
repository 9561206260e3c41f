import TypedConfig.Proofs.Independence
import TypedConfig.Proofs.Notifications
import TypedConfig.Proofs.Parents

/-!
# Changes of different options

A host sets an option, or takes its value away, by its path. In a registry without hooks two such
changes under different paths are independent, each publishes for its own path only, and no option
at a third path is touched (`Registry.independent_touches`).

Such a change is what `Touch.act` makes of one option, or of its absence, under its name in its
section in its file (`Touch.perform_eq_plainly`). So two of them are compared level by level, down
to where their paths part.
-/

namespace TypedConfig

/-- What a part reports is about its own paths. -/
theorem Reports.published_eq_nil {mine : String → Prop} {es : List Event} {xs ys : List Entry}
    (h : Reports mine es xs ys) {path : String} (hpath : ¬mine path) :
    es.filterMap (Event.published? path) = [] := by
  cases hlast : lastNotified? path es with
  | none => exact List.getLast?_eq_none_iff.1 hlast
  | some value => exact absurd (h.only path value hlast) hpath

/-- What a host does to the value of the option at a path. -/
inductive Touch where
  /-- A text or null is set. -/
  | set (value : Option String)
  /-- The value is taken away, or the option itself. -/
  | unset
  deriving Repr, DecidableEq

namespace Touch

/-- How a touch ends if it succeeds. -/
def Outcome : Touch → Type
  | .set _ => SetOutcome
  | .unset => UnsetOutcome

/-- Does it. -/
def perform (r : Registry) (path : String) :
    (t : Touch) → Traced (Registry × Except Failure t.Outcome)
  | .set value => r.setOption path value
  | .unset => r.unsetOption path

/-! ## One option -/

/-- What becomes of the option of a name, or of its absence, in a section without hooks. -/
def act (b : Body) (name path : String) :
    (t : Touch) → Option Entry → Traced (Option Entry × Except Failure t.Outcome)
  | .set _, none => pure (none, .error (.notFound .option path))
  | .set value, some e => do
    let (e, answer) ← e.set value
    pure (some e, answer)
  | .unset, none => pure (none, .error (.notFound .option (b.path name)))
  | .unset, some e =>
    if b.canDelete then do
      Traced.tell e.removalEvents
      Traced.log .debug ("Removed option " ++ e.fullName)
      pure (none, .ok .removed)
    else do
      let (e, answer) ← e.reset
      pure (some e, answer.map fun
        | .changed => .reset
        | .sameValue => .noReset)

/-- An option keeps its name as long as it is there. -/
theorem keeps_act (b : Body) (name path : String) (t : Touch) :
    Roster.Keeps name (t.act b name path) := by
  intro x hx
  cases x with
  | none => cases t <;> exact Roster.fits_none name
  | some e =>
    have hname : e.name = name := hx e rfl
    cases t with
    | set value => exact Roster.fits_some ((Entry.Evolves.set e value).name_eq.trans hname)
    | unset =>
      cases hdelete : b.canDelete with
      | true =>
        simp only [act, hdelete]
        exact Roster.fits_none name
      | false =>
        simp only [act, hdelete]
        exact Roster.fits_some ((Entry.Evolves.reset e).name_eq.trans hname)

/-- A touch publishes for no path but that of the option. -/
theorem published_act (b : Body) (name path : String) (t : Touch) {x : Option Entry}
    {other : String} (h : ∀ e ∈ x, e.fullName ≠ other) :
    (t.act b name path x).events.filterMap (Event.published? other) = [] := by
  cases x with
  | none => cases t <;> rfl
  | some e =>
    have hother : ¬other = e.fullName := fun heq => h e rfl heq.symm
    cases t with
    | set value =>
      have hset := (e.reports_mutate (.set value)).published_eq_nil hother
      show ((e.mutate (.set value)).events ++ []).filterMap _ = []
      rw [List.append_nil, hset]
    | unset =>
      by_cases hdelete : b.canDelete = true
      · have hremoved := e.reports_removalEvents.published_eq_nil hother
        -- The record that the option is gone publishes nothing.
        have hrecord : ([.record .debug .engine ("Removed option " ++ e.fullName)] :
            List Event).filterMap (Event.published? other) = [] := rfl
        simp only [act, if_pos hdelete]
        show (e.removalEvents ++ ([_] ++ [])).filterMap _ = []
        rw [List.filterMap_append, hremoved, List.append_nil, hrecord]
        rfl
      · have hreset := (e.reports_mutate .reset).published_eq_nil hother
        simp only [act, if_neg hdelete]
        show ((e.mutate .reset).events ++ []).filterMap _ = []
        rw [List.append_nil, hreset]

end Touch

/-- The touch of the option of a name in a section, as if that had no hooks. -/
def Section.touch (s : Section) (name path : String) (t : Touch) :
    Traced (Section × Except Failure t.Outcome) :=
  entriesPart.run (fun s => Roster.update name (t.act s.toBody name path)) s

namespace Touch

/-- How a touch fails whose section is not there. -/
def missing (a : Address) (path : String) : Touch → Failure
  | .set _ => .notFound .section (a.file ++ "." ++ a.sectionName)
  | .unset => .notFound .option path

/-- The touch of the option at a path, as if no section had hooks. -/
def plainly (t : Touch) (r : Registry) (path : String) :
    Traced (Registry × Except Failure t.Outcome) :=
  match Address.ofPath? path with
  | none => pure (r, .error (.notFound .option path))
  | some a => do
    let (r, answer) ← r.onSection a.file a.sectionName fun s => s.touch a.option path t
    pure (r, answer.getD (.error (t.missing a path)))

end Touch

/-- What is asked of the sections of a file counts, and nothing else about the question. -/
theorem Document.onSection_congr {α : Type} {d : Document} {name : String}
    {f g : Section → Traced (Section × α)} (h : ∀ s ∈ d.sections, f s = g s) :
    d.onSection name f = d.onSection name g := by
  unfold onSection
  cases hs : d.section? name with
  | none => rfl
  | some s => simp only [h s (Roster.mem_of_find?_eq_some hs)]

/-- Two changes of sections that are the same on all sections of a registry are the same on it. -/
theorem Registry.onSection_congr {α : Type} {r : Registry} {file sectionName : String}
    {f g : Section → Traced (Section × α)}
    (h : ∀ d ∈ r.documents, ∀ s ∈ d.sections, f s = g s) :
    r.onSection file sectionName f = r.onSection file sectionName g := by
  unfold onSection onDocument
  cases hd : r.document? file with
  | none => rfl
  | some d => simp only [Document.onSection_congr (h d (Roster.mem_of_find?_eq_some hd))]

/-- A section in which nothing is put where nothing is stays as it is. -/
theorem Section.set_put_none {s : Section} {name : String} (h : s.entry? name = none) :
    entriesPart.set s (Roster.put name none (entriesPart.get s)) = s :=
  congrArg (entriesPart.set s) (Roster.erase_of_find?_eq_none h)

/-- A set goes to the option that is there. -/
theorem Section.set_eq_touch {s : Section} {name : String} {e : Entry} (he : s.entry? name = some e)
    (value : Option String) (path : String) :
    (do
      let (s, answer) ← s.onBody (·.mutate name (.set value))
      pure (s, answer.getD (.error (.notFound .option path)))) =
      s.touch name path (.set value) := by
  have hfind : Roster.find? name (entriesPart.get s) = some e := he
  unfold touch Part.run
  simp only [onBody, Body.mutate, Body.change, he, Roster.update, hfind, Touch.act,
    Traced.bind_assoc, Traced.pure_bind, Roster.put_some_of_find?_eq_some hfind]
  rfl

/-- Without a hook the option goes where options may go, and is reset elsewhere. -/
theorem Section.unset_eq_touch {s : Section} {name : String} {e : Entry}
    (he : s.entry? name = some e) (hook : s.hooks.delete = none) (path : String) :
    s.unset name = s.touch name path .unset := by
  have hfind : Roster.find? name (entriesPart.get s) = some e := he
  unfold touch Part.run unset
  simp only [he, hook]
  by_cases hdelete : s.canDelete = true
  · simp only [onBody, Body.remove, he, Roster.update, hfind, Touch.act, if_pos hdelete,
      Traced.bind_assoc, Traced.pure_bind]
    rfl
  · have hput (y : Entry) : Roster.put name (some y) (entriesPart.get s) =
        Roster.replace name y s.entries := Roster.put_some_of_find?_eq_some hfind y
    simp only [onBody, Body.mutate, Body.change, he, Roster.update, hfind, Touch.act,
      if_neg hdelete, Traced.bind_assoc, Traced.pure_bind, hput]
    -- What a reset answers is only given another name.
    refine congrArg (e.reset >>= ·) (funext fun x => ?_)
    obtain ⟨e', answer⟩ := x
    cases answer with
    | error failure => rfl
    | ok outcome => cases outcome <;> rfl

/-- Without a hook nobody makes an option that is to be set. -/
theorem Registry.setOption_eq_plainly {r : Registry}
    (hooks : ∀ d ∈ r.documents, ∀ s ∈ d.sections, s.hooks = {}) (path : String)
    (value : Option String) : r.setOption path value = (Touch.set value).plainly r path := by
  unfold setOption Touch.plainly
  cases Address.ofPath? path with
  | none => rfl
  | some a =>
    dsimp only
    congr 1
    refine onSection_congr fun d hd s hs => ?_
    cases he : s.entry? a.option with
    | none =>
      have hfind : Roster.find? a.option (Section.entriesPart.get s) = none := he
      unfold Section.touch Part.run
      simp only [Section.create, hooks d hd s hs, Roster.update, hfind, Touch.act,
        Traced.pure_bind, Section.set_put_none he]
      rfl
    | some e => exact Section.set_eq_touch he value path

/-- Where no section has hooks, taking a value away asks none. -/
theorem Registry.unsetOption_eq_plainly {r : Registry}
    (hooks : ∀ d ∈ r.documents, ∀ s ∈ d.sections, s.hooks = {}) (path : String) :
    r.unsetOption path = Touch.unset.plainly r path := by
  unfold unsetOption Touch.plainly
  cases Address.ofPath? path with
  | none => rfl
  | some a =>
    dsimp only
    congr 1
    refine onSection_congr fun d hd s hs => ?_
    cases he : s.entry? a.option with
    | none =>
      have hfind : Roster.find? a.option (Section.entriesPart.get s) = none := he
      unfold Section.touch Part.run Section.unset
      simp only [he, Roster.update, hfind, Touch.act, Traced.pure_bind, Section.set_put_none he]
      rfl
    | some e => exact Section.unset_eq_touch he (by rw [hooks d hd s hs]) path

/-! ## The other options -/

/-- A touch in a section is done under the option's name. -/
def Section.updatesTouch (name path : String) (t : Touch) :
    Updates entriesPart name fun s => s.touch name path t where
  act s := t.act s.toBody name path
  act_set s entries := by
    funext x
    cases t <;> cases x <;> rfl
  keeps s := t.keeps_act s.toBody name path
  eq_run _ := rfl

namespace Registry

/-- No section has a hook. -/
def Unhooked (r : Registry) : Prop :=
  ∀ d ∈ r.documents, ∀ s ∈ d.sections, s.hooks = {}

/-- All that an operation on a section lets the world know is what the section does. -/
theorem events_onSection {α : Type} (r : Registry) (file sectionName : String)
    (f : Section → Traced (Section × α)) :
    (r.onSection file sectionName f).events =
      ((r.section? file sectionName).map fun s => (f s).events).getD [] := by
  unfold onSection onDocument section? Document.onSection
  cases hd : r.document? file with
  | none => rfl
  | some d =>
    cases hs : d.section? sectionName with
    | none => simp [hs]
    | some s => simp [hs]

/-- A change of a section that leaves its hooks gives no section one. -/
theorem Unhooked.onSection {α : Type} {r : Registry} (h : r.Unhooked) {file sectionName : String}
    {f : Section → Traced (Section × α)} (hf : ∀ s, (f s).result.1.hooks = s.hooks) :
    (r.onSection file sectionName f).result.1.Unhooked := by
  unfold Registry.onSection onDocument Document.onSection
  cases hd : r.document? file with
  | none => exact h
  | some d =>
    have hmem := Roster.mem_of_find?_eq_some hd
    intro c hc t ht
    rcases Roster.mem_of_mem_replace hc with rfl | hc
    · cases hs : d.section? sectionName with
      | none =>
        simp only [hs] at ht
        exact h d hmem t ht
      | some s =>
        simp only [hs] at ht
        rcases Roster.mem_of_mem_replace ht with rfl | ht
        · exact (hf s).trans (h d hmem s (Roster.mem_of_find?_eq_some hs))
        · exact h d hmem t ht
    · exact h c hc t ht

end Registry

/-- In its section a touch reaches no other option. -/
theorem Section.entry?_touch_of_ne (s : Section) {m n : String} (hne : m ≠ n) (path : String)
    (t : Touch) : Body.entry? (s.touch m path t).result.1.toBody n = s.entry? n :=
  (updatesTouch m path t).find?_of_ne hne

/-- What is done in a file is seen under its name. -/
theorem Registry.WellFormed.document?_onDocument {α : Type} {r : Registry} (hr : r.WellFormed)
    {f : Document → Traced (Document × α)} (hf : ∀ d, (f d).result.1.name = d.name) (m n : String) :
    (r.onDocument m f).result.1.document? n =
      if m = n then (r.document? n).map fun d => (f d).result.1 else r.document? n := by
  by_cases hmn : m = n
  · subst hmn
    rw [if_pos rfl]
    refine ((updatesOnDocument m fun _ => hf).find?_self hr.sorted).trans ?_
    show (onFound f (r.document? m)).result.1 = _
    cases r.document? m <;> rfl
  · rw [if_neg hmn]
    exact (updatesOnDocument m fun _ => hf).find?_of_ne hmn

/-- What is done in a section is seen under its name. -/
theorem Document.WellFormed.section?_onSection {α : Type} {d : Document} (hd : d.WellFormed)
    {f : Section → Traced (Section × α)} (hf : ∀ s, (f s).result.1.name = s.name) (m n : String) :
    (d.onSection m f).result.1.section? n =
      if m = n then (d.section? n).map fun s => (f s).result.1 else d.section? n := by
  by_cases hmn : m = n
  · subst hmn
    rw [if_pos rfl]
    refine ((updatesOnSection m hf).find?_self hd.sorted).trans ?_
    show (onFound f (d.section? m)).result.1 = _
    cases d.section? m <;> rfl
  · rw [if_neg hmn]
    exact (updatesOnSection m hf).find?_of_ne hmn

/-- An operation on a section leaves an option alone that it leaves alone in that section. -/
theorem Registry.WellFormed.entryAt?_onSection {α : Type} {r : Registry} (hr : r.WellFormed)
    {f : Section → Traced (Section × α)} (hf : ∀ s, (f s).result.1.name = s.name)
    {file sectionName : String} {b : Address}
    (h : file = b.file → sectionName = b.sectionName → ∀ s : Section,
      Body.entry? (f s).result.1.toBody b.option = s.entry? b.option) :
    (r.onSection file sectionName f).result.1.entryAt? b = r.entryAt? b := by
  have hdocument : (r.onSection file sectionName f).result.1.document? b.file =
      if file = b.file then (r.document? b.file).map
        fun d => (d.onSection sectionName f).result.1 else r.document? b.file :=
    hr.document?_onDocument (fun d => d.name_onSection sectionName f) file b.file
  unfold entryAt? section?
  rw [hdocument]
  by_cases hfile : file = b.file
  · rw [if_pos hfile]
    cases hd : r.document? b.file with
    | none => rfl
    | some d =>
      have hsection := (hr.documents d (Roster.mem_of_find?_eq_some hd)).section?_onSection hf
        sectionName b.sectionName
      simp only [Option.map_some, Option.bind_eq_bind, Option.bind_some, hsection]
      by_cases hname : sectionName = b.sectionName
      · rw [if_pos hname]
        cases hs : d.section? b.sectionName with
        | none => rfl
        | some s => exact h hfile hname s
      · rw [if_neg hname]
  · rw [if_neg hfile]

/-! ## Two options -/

/-- Touches of options at different addresses are independent. -/
theorem Registry.WellFormed.independent_plainly {r : Registry} (hr : r.WellFormed) {p q : String}
    (hne : p ≠ q) (t u : Touch) :
    Independent (fun r => t.plainly r p) (fun r => u.plainly r q) r := by
  unfold Touch.plainly
  cases ha : Address.ofPath? p with
  | none => exact .of_pure _ _ r
  | some a =>
    cases hb : Address.ofPath? q with
    | none => exact (Independent.of_pure _ _ r).symm
    | some b =>
      -- In one section the two paths still part at the options' names.
      have hoption (hfile : a.file = b.file) (hsection : a.sectionName = b.sectionName) :
          a.option ≠ b.option := by
        intro hoption
        have hab : a = b := by
          cases a
          cases b
          simp only [Address.mk.injEq]
          exact ⟨hfile, hsection, hoption⟩
        subst hab
        exact hne ((Address.path_of_ofPath? ha).1.symm.trans (Address.path_of_ofPath? hb).1)
      have hsections : Independent
          (fun r : Registry => r.onSection a.file a.sectionName fun s => s.touch a.option p t)
          (fun r : Registry => r.onSection b.file b.sectionName fun s => s.touch b.option q u) r :=
        hr.independent_onSection (fun _ => rfl) (fun _ => rfl) fun hfile hsection d hd s hs =>
          (Section.updatesTouch a.option p t).independent (Section.updatesTouch b.option q u)
            ((hr.documents d hd).sections s hs).sorted fun hsame =>
              absurd hsame (hoption hfile hsection)
      exact (hsections.map_left fun answer => answer.getD (.error (t.missing a p))).map_right
        fun answer => answer.getD (.error (u.missing b q))

namespace Touch

variable {r : Registry}

/-- A touch gives no section a hook. -/
theorem unhooked_plainly (h : r.Unhooked) (path : String) (t : Touch) :
    (t.plainly r path).result.1.Unhooked := by
  unfold plainly
  cases Address.ofPath? path with
  | none => exact h
  | some a => exact h.onSection fun _ => rfl

/-- Where no hook comes between, a touch is plain. -/
theorem perform_eq_plainly (h : r.Unhooked) (path : String) (t : Touch) :
    t.perform r path = t.plainly r path := by
  cases t with
  | set value => exact Registry.setOption_eq_plainly h path value
  | unset => exact Registry.unsetOption_eq_plainly h path

/-- A touch keeps a registry well-formed, hooks or not. -/
theorem wellFormed_perform (hr : r.WellFormed) (path : String) (t : Touch) :
    (t.perform r path).result.1.WellFormed := by
  cases t with
  | set value =>
    have hevolves : r.Evolves (r.setOption path value).events (r.setOption path value).result.1 :=
      .setOption r path value
    exact hevolves.wellFormed hr
  | unset =>
    have hevolves : r.Evolves (r.unsetOption path).events (r.unsetOption path).result.1 :=
      .unsetOption r path
    exact hevolves.wellFormed hr

/-- A touch publishes for its own path only. -/
theorem published_perform (hr : r.WellFormed) (hooks : r.Unhooked) {path other : String}
    (hne : other ≠ path) (t : Touch) :
    (t.perform r path).events.filterMap (Event.published? other) = [] := by
  rw [perform_eq_plainly hooks]
  unfold plainly
  cases ha : Address.ofPath? path with
  | none => rfl
  | some a =>
    simp only [Traced.events_bind, Traced.events_pure, List.append_nil, Registry.events_onSection]
    cases hs : r.section? a.file a.sectionName with
    | none => rfl
    | some s =>
      simp only [Option.map_some, Option.getD_some]
      have hentry : ∀ e ∈ s.entry? a.option, e.fullName ≠ other := by
        intro e he
        have hfound : r.entryAt? a = some e := by
          unfold Registry.entryAt?
          rw [hs]
          exact he
        have haddress : e.address = a := (hr.mem_of_entryAt? hfound).2
        have hpath : e.fullName = path := by
          rw [← (Address.path_of_ofPath? ha).1, ← haddress]
          rfl
        rw [hpath]
        exact hne.symm
      show (((t.act s.toBody a.option path (s.entry? a.option)).events ++ []) ++ []).filterMap _ =
        []
      rw [List.append_nil, List.append_nil, published_act s.toBody a.option path t hentry]

/-- A plain touch leaves all options alone but the one that its path leads to. -/
theorem entryAt?_plainly (hr : r.WellFormed) {path : String} {b : Address}
    (hb : Address.ofPath? path ≠ some b) (t : Touch) :
    (t.plainly r path).result.1.entryAt? b = r.entryAt? b := by
  unfold plainly
  cases ha : Address.ofPath? path with
  | none => rfl
  | some a =>
    refine hr.entryAt?_onSection (fun _ => rfl) fun hfile hsection s => ?_
    refine s.entry?_touch_of_ne (fun hoption => hb ?_) path t
    rw [ha]
    cases a
    cases b
    simp only [Option.some.injEq, Address.mk.injEq]
    exact ⟨hfile, hsection, hoption⟩

/-- A touch leaves all options alone but the one that its path leads to. -/
theorem entryAt?_perform (hr : r.WellFormed) (hooks : r.Unhooked) {path : String} {b : Address}
    (hb : Address.ofPath? path ≠ some b) (t : Touch) :
    (t.perform r path).result.1.entryAt? b = r.entryAt? b := by
  rw [perform_eq_plainly hooks]
  exact entryAt?_plainly hr hb t

end Touch

/-- In a registry without hooks, two changes of different options are independent: in either order
they end in the same registry, with the same answers and the same events, so also with the same
notifications for each path; and all other options stay as they are. -/
theorem Registry.independent_touches {r : Registry} (h : r.Reachable) (hooks : r.Unhooked)
    {p q : String} (hne : p ≠ q) (t u : Touch) :
    Independent (fun r => t.perform r p) (fun r => u.perform r q) r ∧
      (∀ path,
        ((t.perform r p).events ++ (u.perform (t.perform r p).result.1 q).events).filterMap
            (Event.published? path) =
          ((u.perform r q).events ++ (t.perform (u.perform r q).result.1 p).events).filterMap
            (Event.published? path)) ∧
      ∀ a, Address.ofPath? p ≠ some a → Address.ofPath? q ≠ some a →
        (u.perform (t.perform r p).result.1 q).result.1.entryAt? a = r.entryAt? a := by
  have hwell := h.wellFormed
  have hindependent : Independent (fun r => t.perform r p) (fun r => u.perform r q) r :=
    (hwell.independent_plainly hne t u).congr Unhooked hooks
      (fun _ hs => Touch.perform_eq_plainly hs p t) (fun _ hs => Touch.perform_eq_plainly hs q u)
      (Touch.unhooked_plainly hooks p t) (Touch.unhooked_plainly hooks q u)
  refine ⟨hindependent, fun path => ?_, fun a ha ha' => ?_⟩
  · rw [hindependent.left_events, hindependent.right_events, List.filterMap_append,
      List.filterMap_append]
    -- Only one of the two publishes for a path, so its notifications come in one order.
    by_cases hp : path = p
    · have hq : path ≠ q := fun hq => hne (hp.symm.trans hq)
      rw [Touch.published_perform hwell hooks hq u, List.append_nil, List.nil_append]
    · rw [Touch.published_perform hwell hooks hp t, List.nil_append, List.append_nil]
  · have hunhooked : (t.perform r p).result.1.Unhooked := by
      rw [Touch.perform_eq_plainly hooks]
      exact Touch.unhooked_plainly hooks p t
    rw [Touch.entryAt?_perform (Touch.wellFormed_perform hwell p t) hunhooked ha' u,
      Touch.entryAt?_perform hwell hooks ha t]

/-- A run that makes two options in a section whose options may go. One inherits from the other. -/
def pairing : List Operation :=
  [.addFile "app", .addSection "app" { name := "look", canDelete := true },
    .edit "app" "look"
      (.define { name := "base", kind := .integer, hi := 9, default := some "3" } fun _ =>
        .define { name := "child << app.look.base", kind := .integer, hi := 9, nullable := true }
          fun _ => .finish (.ok ()))]

/-- What `pairing` leads to. -/
def paired : Registry :=
  (Registry.run pairing { env := { dir := "/etc" } } {}).result.1

/-- The parent goes and the child is set, whichever comes first, and only the child is left. -/
theorem Registry.independent_touches_paired :
    Independent (fun r => Touch.unset.perform r "app.look.base")
        (fun r => (Touch.set (some "7")).perform r "app.look.child") paired ∧
      ((Touch.unset.perform ((Touch.set (some "7")).perform paired "app.look.child").result.1
          "app.look.base").result.1.entries.map fun e => (e.name, e.value)) =
        [("child", some (.integer 7))] := by
  have hreachable : paired.Reachable := by
    unfold paired
    exact ⟨{ dir := "/etc" }, pairing, {}, rfl⟩
  have hooks : paired.Unhooked := by
    intro d hd s hs
    have hall : (paired.documents.flatMap fun d => d.sections.map fun s => s.hooks) = [{}] := rfl
    exact List.mem_singleton.1
      (hall ▸ List.mem_flatMap.2 ⟨d, hd, List.mem_map.2 ⟨s, hs, rfl⟩⟩)
  obtain ⟨hindependent, -, -⟩ := independent_touches hreachable hooks
    (p := "app.look.base") (q := "app.look.child") (by decide) .unset (.set (some "7"))
  exact ⟨hindependent, by decide +kernel⟩

end TypedConfig
