import TypedConfig.Proofs.Evolution.Registry
import TypedConfig.Proofs.Outcomes
import TypedConfig.Proofs.RoundTrip

/-!
# What is refused has no effect

A host's change goes down from the registry through a file and a section to an option, and each
level has reasons of its own to refuse it. Wherever that happens, the state of that level is what it
was, and nothing went out but a question to the option's check (`Refuses`). A level that hands an
operation on refuses what the level below refuses, and puts back what it took out. So the same holds
of the whole registry, for all changes that a host may ask for (`Request.refuses_perform`).

Hooks are left out: what a section's hook has done before it fails stays done.
-/

namespace TypedConfig

/-- Whether an event is a question to an option's check. -/
def Event.isInquiry : Event → Bool
  | .checked .. => true
  | _ => false

/-- No event but questions to checks: nobody hears of a change or a removal, no hook is called and
no message is given. -/
def Asks (es : List Event) : Prop :=
  ∀ x ∈ es, x.isInquiry = true

/-- Where nothing happens, nothing but questions does. -/
theorem asks_nil : Asks [] := by
  intro x hx
  cases hx

/-- What a mutation asks the check is all that it may publish without a change. -/
theorem Entry.asks_inquiries (e : Entry) (m : Mutation) : Asks (e.inquiries m) := by
  unfold inquiries
  split
  · unfold inquiry
    split
    · intro x hx
      rw [List.mem_singleton.1 hx]
      rfl
    · exact asks_nil
  · exact asks_nil

/-- Where the answer of an operation on a state is a refusal, the state is what it was. -/
def Refuses {σ α : Type} (refusal : α → Prop) (s : σ) (x : Traced (σ × α)) : Prop :=
  refusal x.result.2 → x.result.1 = s ∧ Asks x.events

/-- An answer that is a failure. -/
def Failed {α : Type} (answer : Except Failure α) : Prop :=
  ∃ failure, answer = .error failure

/-- No answer, since there was nothing to ask, or a refusal. -/
def OrNone {α : Type} (refusal : α → Prop) (answer : Option α) : Prop :=
  ∀ a ∈ answer, refusal a

/-- What is made of an answer fails only if the answer does. -/
theorem Failed.of_map {α β : Type} {answer : Except Failure α} {g : α → β}
    (h : Failed (answer.map g)) : Failed answer := by
  obtain ⟨failure, hfailed⟩ := h
  cases answer with
  | error failure => exact ⟨failure, rfl⟩
  | ok _ => cases hfailed

/-- An answer that is put in the place of a missing one is a refusal only if there is none or it is
one. -/
theorem OrNone.of_getD {α : Type} {refusal : α → Prop} {answer : Option α} {a : α}
    (h : refusal (answer.getD a)) : OrNone refusal answer := by
  intro b hb
  rwa [Option.mem_def.1 hb] at h

namespace Refuses

variable {σ τ α β : Type} {s : σ} {t : τ}

/-- An operation that does nothing. -/
theorem pure (refusal : α → Prop) (s : σ) (a : α) : Refuses refusal s (Pure.pure (s, a)) :=
  fun _ => ⟨rfl, asks_nil⟩

/-- An operation that grants what was asked. -/
theorem of_ok {x : Traced (σ × Except Failure α)} {a : α} (h : x.result.2 = .ok a) :
    Refuses Failed s x := by
  rintro ⟨failure, hfailed⟩
  rw [h] at hfailed
  cases hfailed

/-- An operation that is handed on to another state: a refusal of the one comes from a refusal of
the other, after which its state is put back. -/
theorem hand_on {refusal : α → Prop} {refusal' : β → Prop} {x : Traced (σ × α)}
    {y : Traced (τ × β)} (h : Refuses refusal s x) (hstate : x.result.1 = s → y.result.1 = t)
    (hevents : y.events = x.events) (hanswer : refusal' y.result.2 → refusal x.result.2) :
    Refuses refusal' t y := by
  intro hrefused
  obtain ⟨hkept, hasks⟩ := h (hanswer hrefused)
  rw [hevents]
  exact ⟨hstate hkept, hasks⟩

end Refuses

/-! ## Levels

Each level looks up what an operation is about, runs it there, and puts the result in its place.
What was refused puts back what was there. -/

section Levels

variable {α : Type} {refusal : α → Prop}

/-- A section hands a change on to the option of a name. -/
theorem Body.refuses_change {b : Body} {name : String} {f : Entry → Traced (Entry × α)}
    (h : ∀ e ∈ b.entries, Refuses refusal e (f e)) :
    Refuses (OrNone refusal) b (b.change name f) := by
  unfold change
  cases he : b.entry? name with
  | none => exact .pure _ b none
  | some e =>
    have hentry := h e (Roster.mem_of_find?_eq_some he)
    refine hentry.hand_on (fun hkept => ?_) (List.append_nil _) fun hrefused => hrefused _ rfl
    show { b with entries := Roster.replace name (f e).result.1 b.entries } = b
    rw [hkept, Roster.replace_self he]

/-- An operation on the body is one on the section. -/
theorem Section.refuses_onBody {s : Section} (f : Body → Traced (Body × α))
    (h : Refuses refusal s.toBody (f s.toBody)) : Refuses refusal s (s.onBody f) := by
  refine h.hand_on (fun hkept => ?_) (List.append_nil _) id
  show { s with toBody := (f s.toBody).result.1 } = s
  rw [hkept]

/-- A file hands an operation on to the section of a name. -/
theorem Document.refuses_onSection {d : Document} {name : String}
    {f : Section → Traced (Section × α)} (h : ∀ s ∈ d.sections, Refuses refusal s (f s)) :
    Refuses (OrNone refusal) d (d.onSection name f) := by
  unfold onSection
  cases hs : d.section? name with
  | none => exact .pure _ d none
  | some s =>
    have hsection := h s (Roster.mem_of_find?_eq_some hs)
    refine hsection.hand_on (fun hkept => ?_) (List.append_nil _) fun hrefused => hrefused _ rfl
    show { d with sections := Roster.replace name (f s).result.1 d.sections } = d
    rw [hkept, Roster.replace_self hs]

/-- A registry hands an operation on to the file of a name. -/
theorem Registry.refuses_onDocument {r : Registry} {name : String}
    {f : Document → Traced (Document × α)} (h : ∀ d ∈ r.documents, Refuses refusal d (f d)) :
    Refuses (OrNone refusal) r (r.onDocument name f) := by
  unfold onDocument
  cases hd : r.document? name with
  | none => exact .pure _ r none
  | some d =>
    have hdocument := h d (Roster.mem_of_find?_eq_some hd)
    refine hdocument.hand_on (fun hkept => ?_) (List.append_nil _) fun hrefused => hrefused _ rfl
    show { r with documents := Roster.replace name (f d).result.1 r.documents } = r
    rw [hkept, Roster.replace_self hd]

/-- A registry hands an operation on to a section of a file. -/
theorem Registry.refuses_onSection {r : Registry} {file sectionName : String}
    {f : Section → Traced (Section × α)}
    (h : ∀ d ∈ r.documents, ∀ s ∈ d.sections, Refuses refusal s (f s)) :
    Refuses (OrNone refusal) r (r.onSection file sectionName f) := by
  have hfile : Refuses (OrNone (OrNone refusal)) r
      (r.onDocument file fun d => d.onSection sectionName f) :=
    Registry.refuses_onDocument fun d hd => Document.refuses_onSection (h d hd)
  refine hfile.hand_on id (List.append_nil _) fun hrefused answer hanswer a ha => ?_
  -- An answer of the section is one that comes through the file.
  exact hrefused a (Option.join_eq_some_iff.2 (by rw [← Option.mem_def.1 ha]; exact hanswer))

end Levels

/-! ## Operations on one level -/

/-- An option refuses a text or null that it cannot hold, and what its check vetoes. -/
theorem Entry.refuses_mutate (e : Entry) (m : Mutation) : Refuses Failed e (e.mutate m) := by
  rintro ⟨failure, hfailed⟩
  have hsettles := e.settles_mutate m
  have hunchanged : (e.mutate m).result.2 ≠ .ok .changed := by
    rw [hfailed]
    nofun
  rw [hsettles.unchanged_entry hunchanged, hsettles.unchanged_events hunchanged]
  exact ⟨rfl, e.asks_inquiries m⟩

namespace Body

/-- A section refuses an option whose name is taken or whose definition breaks a rule. -/
theorem refuses_define (b : Body) (d : Definition) : Refuses Failed b (b.define d) := by
  unfold define
  split
  · exact .pure _ b _
  · split
    · exact .pure _ b _
    · exact .of_ok rfl

/-- A failed removal removes nothing. -/
theorem refuses_remove (b : Body) (name : String) : Refuses Failed b (b.remove name) := by
  unfold remove
  split
  · exact .pure _ b _
  · exact .of_ok rfl

/-- A failed change of an option changes nothing. -/
theorem refuses_mutate (b : Body) (name : String) (m : Mutation) :
    Refuses (OrNone Failed) b (b.mutate name m) :=
  refuses_change fun e _ => e.refuses_mutate m

end Body

namespace Section

variable {s : Section}

/-- Without a hook that makes options no user's option is made. -/
theorem refuses_create (h : s.hooks = {}) (name : String) (value : Option String) :
    Refuses Failed s (s.create name value) := by
  unfold create
  rw [h]
  exact .pure _ s _

/-- Without a hook that removes options a user's option goes or is reset. -/
theorem refuses_unset (h : s.hooks = {}) (name : String) : Refuses Failed s (s.unset name) := by
  unfold unset
  cases s.entry? name with
  | none => exact .pure _ s _
  | some e =>
    dsimp only
    rw [h]
    cases s.canDelete with
    | true =>
      have hremove := refuses_onBody (·.remove name) (s.refuses_remove name)
      exact hremove.hand_on id (List.append_nil _) Failed.of_map
    | false =>
      have hreset := refuses_onBody (·.mutate name .reset) (s.refuses_mutate name .reset)
      refine hreset.hand_on id (List.append_nil _) ?_
      simp only [Traced.result_bind, Traced.result_pure, Bool.false_eq_true, if_false]
      -- The two successes are given other names, and a failure is passed on.
      generalize (s.onBody (·.mutate name .reset)).result.2 = answer
      rintro ⟨failure, hfailed⟩ a ha
      obtain rfl := Option.mem_def.1 ha
      cases a with
      | error failure => exact ⟨failure, rfl⟩
      | ok outcome => cases outcome <;> cases hfailed

end Section

namespace Document

/-- A version that is refused is not set. -/
theorem refuses_setVersion (d : Document) (version : Nat) :
    Refuses Failed d (Pure.pure (d.setVersion version)) := by
  unfold setVersion
  split
  · exact .of_ok rfl
  · exact .pure _ d _

/-- A section that is refused is not added. -/
theorem refuses_addSection (d : Document) (palette : Palette) (s : SectionDefinition) :
    Refuses Failed d (Pure.pure (d.addSection palette s)) := by
  unfold addSection
  split
  · exact .pure _ d _
  · split
    · exact .pure _ d _
    · exact .of_ok rfl

/-- A failed removal of a section removes nothing. -/
theorem refuses_removeSection (d : Document) (name : String) :
    Refuses Failed d (d.removeSection name) := by
  unfold removeSection
  split
  · exact .pure _ d _
  · exact .of_ok rfl

end Document

namespace Registry

variable {r : Registry}

/-- Settings that are refused are not taken. -/
theorem refuses_setSettings (r : Registry) (settings : Settings) :
    Refuses Failed r (Pure.pure (r.setSettings settings)) := by
  unfold setSettings
  split
  · exact .of_ok rfl
  · exact .pure _ r _

/-- A file that is refused is not added. -/
theorem refuses_addFile (r : Registry) (name : String) :
    Refuses Failed r (Pure.pure (r.addFile name)) := by
  unfold addFile
  dsimp only
  split
  · exact .pure _ r _
  · split
    · exact .pure _ r _
    · exact .of_ok rfl

/-- A failed removal of a file removes nothing. -/
theorem refuses_removeFile (r : Registry) (name : String) :
    Refuses Failed r (r.removeFile name) := by
  unfold removeFile
  split
  · exact .pure _ r _
  · exact .of_ok rfl

/-- The option at a path is set, or its section is asked to make it. -/
theorem refuses_setOption (hooks : ∀ d ∈ r.documents, ∀ s ∈ d.sections, s.hooks = {})
    (path : String) (value : Option String) : Refuses Failed r (r.setOption path value) := by
  unfold setOption
  split
  · exact .pure _ r _
  · next a _ =>
    refine Refuses.hand_on (refuses_onSection fun d hd s hs => ?_) id (List.append_nil _)
      OrNone.of_getD
    -- An option that is there is set. One that is not there would be the hook's to make.
    split
    · have hset := Section.refuses_onBody (·.mutate a.option (.set value))
        (s.refuses_mutate a.option (.set value))
      exact hset.hand_on id (List.append_nil _) OrNone.of_getD
    · have hcreate := Section.refuses_create (hooks d hd s hs) a.option value
      refine hcreate.hand_on id (List.append_nil _) ?_
      rintro ⟨failure, hfailed⟩
      cases hanswer : (s.create a.option value).result.2 with
      | error failure => exact ⟨failure, rfl⟩
      | ok outcome => simp [hanswer] at hfailed

/-- Without hooks, a failed unset leaves the option its value. -/
theorem refuses_unsetOption (hooks : ∀ d ∈ r.documents, ∀ s ∈ d.sections, s.hooks = {})
    (path : String) : Refuses Failed r (r.unsetOption path) := by
  unfold unsetOption
  split
  · exact .pure _ r _
  · next a _ =>
    refine Refuses.hand_on (refuses_onSection fun d hd s hs => ?_) id (List.append_nil _)
      OrNone.of_getD
    exact Section.refuses_unset (hooks d hd s hs) a.option

/-- A rename that does not take place renames nothing. -/
theorem refuses_renameOption (r : Registry) (path newName : String) :
    Refuses (fun answer => answer.toOption ≠ some true) r (r.renameOption path newName) := by
  intro hrefused
  obtain ⟨hstate, hnone⟩ := renameOption_of_not_done hrefused
  rw [hnone]
  exact ⟨hstate, asks_nil⟩

end Registry

/-! ## All changes that may be refused -/

/-- What a host may ask for and be refused. -/
inductive Request where
  | setSettings (settings : Settings)
  | addFile (name : String)
  | removeFile (name : String)
  | setVersion (file : String) (version : Nat)
  | addSection (file : String) (definition : SectionDefinition)
  | removeSection (file sectionName : String)
  /-- An option is added to a section. -/
  | define (file sectionName : String) (definition : Definition)
  /-- An option is removed from a section. -/
  | remove (file sectionName option : String)
  | setOption (path : String) (value : Option String)
  | unsetOption (path : String)
  | renameOption (path newName : String)

namespace Request

/-- What a host learns of an answer: whether it got what it asked for, or the failure. -/
def told {α : Type} (answer : Except Failure α) : Except Failure Bool :=
  answer.map fun _ => true

/-- Does what is asked. There is no answer where the file or the section is not there that would be
asked. -/
def perform (r : Registry) : Request → Traced (Registry × Option (Except Failure Bool))
  | setSettings settings => do
    let (r, answer) := r.setSettings settings
    pure (r, some (told answer))
  | addFile name => do
    let (r, answer) := r.addFile name
    pure (r, some (told answer))
  | removeFile name => do
    let (r, answer) ← r.removeFile name
    pure (r, some (told answer))
  | setVersion file version => do
    let (r, answer) ← r.onDocument file fun d => pure (d.setVersion version)
    pure (r, answer.map told)
  | addSection file definition => do
    let (r, answer) ← r.onDocument file fun d => pure (d.addSection r.env.palette definition)
    pure (r, answer.map told)
  | removeSection file sectionName => do
    let (r, answer) ← r.onDocument file fun d => d.removeSection sectionName
    pure (r, answer.map told)
  | define file sectionName definition => do
    let (r, answer) ← r.onSection file sectionName fun s => s.onBody (·.define definition)
    pure (r, answer.map told)
  | remove file sectionName option => do
    let (r, answer) ← r.onSection file sectionName fun s => s.onBody (·.remove option)
    pure (r, answer.map told)
  | setOption path value => do
    let (r, answer) ← r.setOption path value
    pure (r, some (told answer))
  | unsetOption path => do
    let (r, answer) ← r.unsetOption path
    pure (r, some (told answer))
  | renameOption path newName => do
    let (r, answer) ← r.renameOption path newName
    pure (r, some answer)

/-- Whether an answer grants what was asked. -/
def isGranted : Option (Except Failure Bool) → Bool
  | some (.ok done) => done
  | _ => false

/-- A request with an answer is not granted if the answer is a failure only. -/
theorem failed_of_told {α : Type} {answer : Except Failure α}
    (h : isGranted (some (told answer)) = false) : Failed answer := by
  cases answer with
  | error failure => exact ⟨failure, rfl⟩
  | ok _ => cases h

/-- Nor is one without an answer. -/
theorem orNone_of_told {α : Type} {answer : Option (Except Failure α)}
    (h : isGranted (answer.map told) = false) : OrNone Failed answer := by
  intro a ha
  rw [Option.mem_def.1 ha] at h
  exact failed_of_told h

/-- Each request is one operation on one level, which the levels above hand on. -/
theorem refuses_perform {r : Registry}
    (hooks : ∀ d ∈ r.documents, ∀ s ∈ d.sections, s.hooks = {}) (q : Request) :
    Refuses (fun answer => isGranted answer = false) r (q.perform r) := by
  cases q with
  | setSettings settings =>
    exact (r.refuses_setSettings settings).hand_on id rfl failed_of_told
  | addFile name => exact (r.refuses_addFile name).hand_on id rfl failed_of_told
  | removeFile name =>
    exact (r.refuses_removeFile name).hand_on id (List.append_nil _) failed_of_told
  | setVersion file version =>
    have hfile : Refuses (OrNone Failed) r
        (r.onDocument file fun d => pure (d.setVersion version)) :=
      Registry.refuses_onDocument fun d _ => d.refuses_setVersion version
    exact hfile.hand_on id (List.append_nil _) orNone_of_told
  | addSection file definition =>
    have hfile : Refuses (OrNone Failed) r
        (r.onDocument file fun d => pure (d.addSection r.env.palette definition)) :=
      Registry.refuses_onDocument fun d _ => d.refuses_addSection r.env.palette definition
    exact hfile.hand_on id (List.append_nil _) orNone_of_told
  | removeSection file sectionName =>
    have hfile : Refuses (OrNone Failed) r
        (r.onDocument file fun d => d.removeSection sectionName) :=
      Registry.refuses_onDocument fun d _ => d.refuses_removeSection sectionName
    exact hfile.hand_on id (List.append_nil _) orNone_of_told
  | define file sectionName definition =>
    have hsection : Refuses (OrNone Failed) r
        (r.onSection file sectionName fun s => s.onBody (·.define definition)) :=
      Registry.refuses_onSection fun _ _ s _ =>
        Section.refuses_onBody (·.define definition) (s.refuses_define definition)
    exact hsection.hand_on id (List.append_nil _) orNone_of_told
  | remove file sectionName option =>
    have hsection : Refuses (OrNone Failed) r
        (r.onSection file sectionName fun s => s.onBody (·.remove option)) :=
      Registry.refuses_onSection fun _ _ s _ =>
        Section.refuses_onBody (·.remove option) (s.refuses_remove option)
    exact hsection.hand_on id (List.append_nil _) orNone_of_told
  | setOption path value =>
    exact (Registry.refuses_setOption hooks path value).hand_on id (List.append_nil _)
      failed_of_told
  | unsetOption path =>
    exact (Registry.refuses_unsetOption hooks path).hand_on id (List.append_nil _) failed_of_told
  | renameOption path newName =>
    -- For a rename the answer `false` is a refusal, as much as a failure.
    refine (r.refuses_renameOption path newName).hand_on id (List.append_nil _) ?_
    intro hrefused hdone
    have hanswer : isGranted (some (r.renameOption path newName).result.2) = false := hrefused
    cases hresult : (r.renameOption path newName).result.2 with
    | error failure =>
      rw [hresult] at hdone
      cases hdone
    | ok done =>
      rw [hresult] at hanswer hdone
      obtain rfl := Option.some.inj hdone
      cases hanswer

end Request

/-- Whatever a host asks of a registry without hooks and however malformed that is, if the answer is
a failure, or that an option was not renamed, then the registry is exactly what it was, with its
settings and all files, sections and options, and no event went out but questions to checks. -/
theorem Registry.unaffected_of_refused {r : Registry}
    (hooks : ∀ d ∈ r.documents, ∀ s ∈ d.sections, s.hooks = {}) (q : Request)
    (hrefused : Request.isGranted (q.perform r).result.2 = false) :
    (q.perform r).result.1 = r ∧ Asks (q.perform r).events :=
  q.refuses_perform hooks hrefused

/-- The registry after `filing`. -/
def filedHost : Registry where
  env := { dir := "/etc" }
  documents := [firstFile]

/-- A request of each kind that it gives a reason to refuse. -/
def unreasonable : List Request :=
  [.setSettings { productName := "" },
    .addFile "10|app",
    .removeFile "log",
    .setVersion "app" 0,
    .addSection "app" { name := "look" },
    .removeSection "app" "keys",
    .define "app" "look" { name := "mode << app.look.tint", kind := .string },
    .remove "app" "look" "depth",
    .setOption "app.look.mode" (some "tall"),
    .unsetOption "app.look.depth",
    .renameOption "app.look.mode" "tint"]

/-- All these requests are refused: a text that is none of the variants with a failure, and a new
name that is taken with the answer that nothing was renamed. Neither leaves a trace. -/
theorem unaffected_of_refused_filed :
    (∀ q ∈ unreasonable, Request.isGranted (q.perform filedHost).result.2 = false) ∧
      ((Request.setOption "app.look.mode" (some "tall")).perform filedHost).result.1 = filedHost ∧
      Asks ((Request.setOption "app.look.mode" (some "tall")).perform filedHost).events ∧
      ((Request.renameOption "app.look.mode" "tint").perform filedHost).result.1 = filedHost ∧
      Asks ((Request.renameOption "app.look.mode" "tint").perform filedHost).events := by
  have hrefused :
      ∀ q ∈ unreasonable, Request.isGranted (q.perform filedHost).result.2 = false := by
    decide +kernel
  have hooks : ∀ d ∈ filedHost.documents, ∀ s ∈ d.sections, s.hooks = {} :=
    List.forall_mem_singleton.2 canWrite_firstFile.hooks
  obtain ⟨hset, hsetAsks⟩ := Registry.unaffected_of_refused hooks
    (.setOption "app.look.mode" (some "tall")) (hrefused _ (by simp [unreasonable]))
  obtain ⟨hrename, hrenameAsks⟩ := Registry.unaffected_of_refused hooks
    (.renameOption "app.look.mode" "tint") (hrefused _ (by simp [unreasonable]))
  exact ⟨hrefused, hset, hsetAsks, hrename, hrenameAsks⟩

end TypedConfig
