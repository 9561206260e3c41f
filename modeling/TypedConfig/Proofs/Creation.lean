import TypedConfig.Proofs.Independence
import TypedConfig.Proofs.Refusals
import TypedConfig.Proofs.Representation

/-!
# The order in which things are made

A host makes files, sections in them and options in these. If each definition is good in itself and
no two are for one place, then all of them are accepted in each order in which everything comes
after what it goes into, and the registry is the same (`Registry.create_perm`). So the host's order
shows in nothing: not in the order of files, sections and options, not in the order in which files
are read, and not in what is written.

What is in a registry is told by places, which are the names on the way to a thing (`Registry.Has`).
A thing is accepted exactly where its place is free and the one before it is not
(`Creation.Ready`). Of two things that are both ready, neither goes into the other, so they are
independent (`Creation.independent_perform`) and may change places (`Creation.make_comm`). Thus the
first thing of one order can be moved to the front of the other.
-/

namespace TypedConfig

/-! ## Places -/

namespace Roster

variable {α : Type} [Named α]

/-- The names lead to something, where `inner` tells what there is in each thing of the roster. -/
def Has (inner : α → List String → Prop) (xs : List α) : List String → Prop
  | [] => True
  | n :: place => ∃ x, find? n xs = some x ∧ inner x place

variable {inner : α → List String → Prop} {xs : List α} {n : String} {x y : α}

/-- A name that leads to nothing is free. -/
theorem find?_of_not_has (hinner : ∀ x, inner x []) (h : ¬Has inner xs [n]) :
    find? n xs = none := by
  cases hx : find? n xs with
  | none => rfl
  | some x => exact absurd ⟨x, hx, hinner x⟩ h

/-- What leads on leads to each thing on the way. -/
theorem Has.of_prefix (hinner : ∀ x p q, p <+: q → inner x q → inner x p) {p q : List String}
    (hpq : p <+: q) (h : Has inner xs q) : Has inner xs p := by
  cases p with
  | nil => trivial
  | cons m p =>
    cases q with
    | nil => exact absurd (List.prefix_nil.1 hpq) (List.cons_ne_nil m p)
    | cons n q =>
      obtain ⟨rfl, hrest⟩ := List.cons_prefix_cons.1 hpq
      obtain ⟨x, hx, hq⟩ := h
      exact ⟨x, hx, hinner x _ _ hrest hq⟩

/-- An empty roster leads nowhere. -/
theorem has_nil {p : List String} : Has inner [] p ↔ p = [] := by
  cases p with
  | nil => exact iff_of_true trivial rfl
  | cons n p => exact iff_of_false (fun ⟨_, hx, _⟩ => by cases hx) (List.cons_ne_nil n p)

/-- A new thing is all that it brings, if there is nothing in it. -/
theorem has_insert (hfree : find? (Named.name x) xs = none) (hx : ∀ p, inner x p ↔ p = [])
    (p : List String) : Has inner (insert x xs) p ↔ Has inner xs p ∨ p = [Named.name x] := by
  cases p with
  | nil => simp only [Has, true_or]
  | cons n p =>
    by_cases hn : Named.name x = n
    · subst hn
      simp [Has, find?_insert_self hfree, hfree, hx]
    · have hne : ¬n = Named.name x := fun heq => hn heq.symm
      simp [Has, find?_insert_of_ne hn, hne]

/-- What is new in a thing is new in the roster. -/
theorem has_replace (hx : find? n xs = some x) (hy : Named.name y = n) {place : List String}
    (hplace : ∀ p, inner y p ↔ inner x p ∨ p = place) (p : List String) :
    Has inner (replace n y xs) p ↔ Has inner xs p ∨ p = n :: place := by
  cases p with
  | nil => simp only [Has, true_or]
  | cons m p =>
    by_cases hm : n = m
    · subst hm
      have hfound : find? n (replace n y xs) = some y := find?_replace_self hy (by rw [hx]; rfl)
      simp [Has, hfound, hx, hplace]
    · have hne : ¬m = n := fun heq => hm heq.symm
      simp [Has, find?_replace_of_ne hy hm, hne]

end Roster

/-- The names lead to the section or to an option of it. -/
def Section.Has (s : Section) : List String → Prop :=
  Roster.Has (fun _ place => place = []) s.entries

/-- The names lead to the file or to something in it. -/
def Document.Has (d : Document) : List String → Prop :=
  Roster.Has Section.Has d.sections

/-- The names lead to something in the registry, or there are none. -/
def Registry.Has (r : Registry) : List String → Prop :=
  Roster.Has Document.Has r.documents

/-- Where names lead to something, the first ones of them do too. -/
theorem Registry.Has.of_prefix {r : Registry} {p q : List String} (hpq : p <+: q) (h : r.Has q) :
    r.Has p := by
  have hentry (e : Entry) (p q : List String) (hpq : p <+: q) (hq : q = []) : p = [] :=
    List.prefix_nil.1 (hq ▸ hpq)
  have hsection (s : Section) (p q : List String) (hpq : p <+: q) (hq : s.Has q) : s.Has p :=
    Roster.Has.of_prefix hentry hpq hq
  have hdocument (d : Document) (p q : List String) (hpq : p <+: q) (hq : d.Has q) : d.Has p :=
    Roster.Has.of_prefix hsection hpq hq
  exact Roster.Has.of_prefix hdocument hpq h

/-! ## Making things -/

/-- A definition with the names of the things that it goes into. -/
inductive Creation where
  | newFile (name : String)
  | newSection (file : String) (definition : SectionDefinition)
  | newOption (file sectionName : String) (definition : Definition)

namespace Creation

/-- The names on the way to what is made. -/
def place : Creation → List String
  | .newFile name => [(Document.splitPriority name).2]
  | .newSection file d => [file, d.name]
  | .newOption file sectionName d => [file, sectionName, d.plainName]

/-- The place of what the thing goes into. -/
def owner (c : Creation) : List String :=
  c.place.dropLast

/-- What the host asks for. -/
def request : Creation → Request
  | .newFile name => .addFile name
  | .newSection file d => .addSection file d
  | .newOption file sectionName d => .define file sectionName d

/-- The definition is good in itself, where the colors are those of the palette. -/
def IsValid (palette : Palette) : Creation → Prop
  | .newFile name => ∃ d, Document.ofName? name = .ok d
  | .newSection file d => ∃ s, Section.ofDefinition? file palette d = .ok s
  | .newOption file sectionName d => ∃ e, Entry.ofDefinition? file sectionName palette d = .ok e

/-- Makes the thing, if it is accepted. -/
def make (c : Creation) (r : Registry) : Option Registry :=
  if Request.isGranted (c.request.perform r).result.2 then some (c.request.perform r).result.1
  else none

/-- Each thing comes after what it goes into, where some things are there from the start. -/
def Ordered (there : List String → Prop) : List Creation → Prop
  | [] => True
  | c :: cs => there c.owner ∧ Ordered (fun p => there p ∨ p = c.place) cs

end Creation

/-- Makes one thing after the other, if all are accepted. -/
def Registry.create : List Creation → Registry → Option Registry
  | [], r => some r
  | c :: cs, r => (c.make r).bind (create cs)

/-! ## Things that are ready -/

/-- A well-formed registry whose sections have the colors of the palette. -/
structure Registry.Founded (palette : Palette) (r : Registry) : Prop where
  wellFormed : r.WellFormed
  upholds : r.Upholds palette fun _ => True

namespace Creation

/-- The thing can be made next. -/
structure Ready (palette : Palette) (r : Registry) (c : Creation) : Prop where
  valid : c.IsValid palette
  owner : r.Has c.owner
  free : ¬r.Has c.place

variable {palette : Palette} {r : Registry} {b c : Creation}

/-- To make a thing is a primitive change. -/
theorem evolves (c : Creation) (r : Registry) :
    r.Evolves (c.request.perform r).events (c.request.perform r).result.1 := by
  cases c with
  | newFile name =>
    have hadd : r.Evolves [] (r.addFile name).1 := .addFile r name trivial
    exact hadd
  | newSection file d =>
    have hadd : r.Evolves (r.onDocument file fun e => pure (e.addSection r.env.palette d)).events
        (r.onDocument file fun e => pure (e.addSection r.env.palette d)).result.1 :=
      .onDocument r file _ fun e => .addSection e d trivial
    exact hadd.trans (.refl _)
  | newOption file sectionName d =>
    have hdefine : r.Evolves (r.onSection file sectionName fun s => s.onBody (·.define d)).events
        (r.onSection file sectionName fun s => s.onBody (·.define d)).result.1 :=
      .onSection r file sectionName _ fun s => .ofBody s _ (.define s.toBody d)
    exact hdefine.trans (.refl _)

/-- A registry stays founded when something is made in it. -/
theorem founded_make (hr : r.Founded palette) {s : Registry} (h : c.make r = some s) :
    s.Founded palette := by
  unfold make at h
  split at h
  · obtain rfl := Option.some.inj h
    have hlasting : Entry.Lasting palette fun _ => True :=
      ⟨fun _ => trivial, fun _ _ => trivial, fun _ _ => trivial, fun _ _ _ => trivial⟩
    exact ⟨(c.evolves r).wellFormed hr.wellFormed, (c.evolves r).upholds hlasting hr.upholds⟩
  · cases h

/-- A file that is ready is added. -/
theorem exists_make_newFile {name : String} (h : Ready palette r (newFile name)) :
    ∃ s, (newFile name).make r = some s ∧ ∀ p, s.Has p ↔ r.Has p ∨ p = (newFile name).place := by
  obtain ⟨d, hd⟩ := h.valid
  have hname : Named.name d = (Document.splitPriority name).2 := by
    rw [Document.eq_of_ofName? hd]
    rfl
  have hinside (q : List String) : d.Has q ↔ q = [] := by
    rw [Document.eq_of_ofName? hd]
    exact Roster.has_nil
  have hfree : r.document? (Document.splitPriority name).2 = none :=
    Roster.find?_of_not_has (fun _ => trivial) h.free
  have hadd : r.addFile name = ({ r with documents := Roster.insert d r.documents }, .ok ()) := by
    simp [Registry.addFile, hfree, hd]
  refine ⟨{ r with documents := Roster.insert d r.documents }, ?_, fun p => ?_⟩
  · simp only [make, request, Request.perform, hadd]
    rfl
  · show _ ↔ _ ∨ p = [_]
    rw [← hname]
    exact Roster.has_insert (hname ▸ hfree) hinside p

/-- A section that is ready is added to its file. -/
theorem exists_make_newSection (hr : r.Founded palette) {file : String} {t : SectionDefinition}
    (h : Ready palette r (newSection file t)) :
    ∃ s, (newSection file t).make r = some s ∧
      ∀ p, s.Has p ↔ r.Has p ∨ p = (newSection file t).place := by
  obtain ⟨d, hd, -⟩ := h.owner
  obtain rfl : d.name = file := Roster.name_of_find?_eq_some hd
  obtain ⟨s, hs⟩ := h.valid
  have hname : Named.name s = t.name := by
    rw [Section.eq_of_ofDefinition? hs]
    rfl
  have hinside (q : List String) : s.Has q ↔ q = [] := by
    rw [Section.eq_of_ofDefinition? hs]
    exact Roster.has_nil
  have hfree : d.section? t.name = none :=
    Roster.find?_of_not_has (fun _ => trivial) fun ht => h.free ⟨d, hd, ht⟩
  obtain ⟨d', hd'⟩ : ∃ d', d' = { d with sections := Roster.insert s d.sections } := ⟨_, rfl⟩
  have hadd : d.addSection r.env.palette t = (d', .ok ()) := by
    simp [Document.addSection, hfree, hr.upholds.palette_eq, hs, hd']
  have hfound : r.document? d.name = some d := hd
  refine ⟨{ r with documents := Roster.replace d.name d' r.documents }, ?_, fun p => ?_⟩
  · simp only [make, request, Request.perform, Registry.onDocument, hfound, hadd]
    rfl
  · have hinsert (q : List String) : d'.Has q ↔ d.Has q ∨ q = [t.name] := by
      rw [hd', ← hname]
      exact Roster.has_insert (hname ▸ hfree) hinside q
    exact Roster.has_replace hd (by rw [hd']; rfl) hinsert p

/-- An option that is ready is added to its section. -/
theorem exists_make_newOption (hr : r.Founded palette) {file sectionName : String} {t : Definition}
    (h : Ready palette r (newOption file sectionName t)) :
    ∃ s, (newOption file sectionName t).make r = some s ∧
      ∀ p, s.Has p ↔ r.Has p ∨ p = (newOption file sectionName t).place := by
  obtain ⟨d, hd, s, hs, -⟩ := h.owner
  obtain rfl : d.name = file := Roster.name_of_find?_eq_some hd
  obtain rfl : s.name = sectionName := Roster.name_of_find?_eq_some hs
  have hdmem := Roster.mem_of_find?_eq_some hd
  have hsmem := Roster.mem_of_find?_eq_some hs
  have hfile : s.file = d.name := (hr.wellFormed.documents d hdmem).owner s hsmem
  have hpalette : s.palette = palette := (hr.upholds.documents d hdmem s hsmem).palette_eq
  obtain ⟨e, he⟩ := h.valid
  have hname : Named.name e = t.plainName := (Entry.wellFormed_of_ofDefinition? he).2
  have hfree : s.entry? t.plainName = none :=
    Roster.find?_of_not_has (fun _ => rfl) fun ht => h.free ⟨d, hd, s, hs, ht⟩
  -- The section after the addition, and the file with it, under names of their own.
  obtain ⟨s', hs'⟩ : ∃ s', s' = { s with entries := Roster.insert e s.entries } := ⟨_, rfl⟩
  have hdefine : (s.onBody (·.define t)).result = (s', .ok e) := by
    simp [Section.onBody, Body.define, hfree, hfile, hpalette, he, hs']
  obtain ⟨d', hd'⟩ : ∃ d', d' = { d with sections := Roster.replace s.name s' d.sections } :=
    ⟨_, rfl⟩
  have hfound : r.document? d.name = some d := hd
  have hfound' : d.section? s.name = some s := hs
  refine ⟨{ r with documents := Roster.replace d.name d' r.documents }, ?_, fun p => ?_⟩
  · simp only [make, request, Request.perform, Registry.onSection, Registry.onDocument, hfound,
      Document.onSection, hfound', Traced.result_bind, hdefine, Traced.result_pure, ← hd']
    rfl
  · have hinsert (q : List String) : s'.Has q ↔ s.Has q ∨ q = [t.plainName] := by
      rw [hs', ← hname]
      exact Roster.has_insert (hname ▸ hfree) (fun _ => Iff.rfl) q
    have hreplace (q : List String) : d'.Has q ↔ d.Has q ∨ q = [s.name, t.plainName] := by
      rw [hd']
      exact Roster.has_replace hs (by rw [hs']; rfl) hinsert q
    exact Roster.has_replace hd (by rw [hd']; rfl) hreplace p

/-- What is ready is accepted, and is all that is new. -/
theorem Ready.exists_make (hr : r.Founded palette) (h : Ready palette r c) :
    ∃ s, c.make r = some s ∧ ∀ p, s.Has p ↔ r.Has p ∨ p = c.place := by
  cases c with
  | newFile name => exact exists_make_newFile h
  | newSection file d => exact exists_make_newSection hr h
  | newOption file sectionName d => exact exists_make_newOption hr h

/-! ## Two things -/

/-- A file with one more section has the same name. -/
theorem name_addSection (d : Document) (t : SectionDefinition) :
    (d.addSection palette t).1.name = d.name := by
  unfold Document.addSection
  split
  · rfl
  · split <;> rfl

/-- A section with one more option has the same name. -/
theorem name_define (s : Section) (t : Definition) :
    (s.onBody (·.define t)).result.1.name = s.name :=
  (Section.Evolves.ofBody s (·.define t) (.define s.toBody t)).names_eq.2

/-- A file is independent of all that does not go into it. -/
theorem independent_newFile (hr : r.WellFormed) {name : String}
    (h : ¬(newFile name).place <+: c.place) :
    Independent (fun r => (newFile name).request.perform r) (fun r => c.request.perform r) r := by
  have told {α : Type} {g : Registry → Traced (Registry × α)}
      (h : Independent (fun r => pure (r.addFile name)) g r) :
      Independent (fun r => (newFile name).request.perform r) g r :=
    h.map_left fun a => some (Request.told a)
  cases c with
  | newFile name' =>
    have hne : (Document.splitPriority name).2 ≠ (Document.splitPriority name').2 := by
      simpa [place] using h
    have hfiles := (Registry.updatesAddFile name).independent (Registry.updatesAddFile name')
      hr.sorted fun hsame => absurd hsame hne
    exact told (hfiles.map_right fun a => some (Request.told a))
  | newSection file t =>
    have hne : (Document.splitPriority name).2 ≠ file := by simpa [place] using h
    have hfiles := (Registry.updatesAddFile name).independent
      (Registry.updatesOnDocument file
        (f := fun env d => pure (d.addSection env.palette t)) fun _ d => name_addSection d t)
      hr.sorted fun hsame => absurd hsame hne
    exact told (hfiles.map_right (Option.map Request.told))
  | newOption file sectionName t =>
    have hne : (Document.splitPriority name).2 ≠ file := by simpa [place] using h
    have hfiles := (Registry.updatesAddFile name).independent
      (Registry.updatesOnDocument file
        (f := fun _ d => d.onSection sectionName fun s => s.onBody (·.define t))
        fun _ d => d.name_onSection sectionName _)
      hr.sorted fun hsame => absurd hsame hne
    exact told ((hfiles.map_right Option.join).map_right (Option.map Request.told))

/-- Sections are independent unless one is the other. -/
theorem independent_newSection (hr : r.WellFormed) {file file' : String}
    {t u : SectionDefinition} (hne : file = file' → t.name ≠ u.name) :
    Independent (fun r => (newSection file t).request.perform r)
      (fun r => (newSection file' u).request.perform r) r := by
  have hfiles := hr.independent_onDocument (m := file) (n := file')
    (f := fun env d => pure (d.addSection env.palette t))
    (g := fun env d => pure (d.addSection env.palette u))
    (fun _ d => name_addSection d t) (fun _ d => name_addSection d u) fun hfile d hd =>
      (Document.updatesAddSection r.env.palette t).independent
        (Document.updatesAddSection r.env.palette u) (hr.documents d hd).sorted
        fun hsame => absurd hsame (hne hfile)
  exact (hfiles.map_left (Option.map Request.told)).map_right (Option.map Request.told)

/-- A section is independent of the options of other sections. -/
theorem independent_newSection_newOption (hr : r.WellFormed) {file file' sectionName : String}
    {t : SectionDefinition} {u : Definition} (hne : file = file' → t.name ≠ sectionName) :
    Independent (fun r => (newSection file t).request.perform r)
      (fun r => (newOption file' sectionName u).request.perform r) r := by
  have hfiles := hr.independent_onDocument (m := file) (n := file')
    (f := fun env d => pure (d.addSection env.palette t))
    (g := fun _ d => d.onSection sectionName fun s => s.onBody (·.define u))
    (fun _ d => name_addSection d t) (fun _ d => d.name_onSection sectionName _) fun hfile d hd =>
      (Document.updatesAddSection r.env.palette t).independent
        (Document.updatesOnSection sectionName fun s => name_define s u)
        (hr.documents d hd).sorted fun hsame => absurd hsame (hne hfile)
  exact ((hfiles.map_left (Option.map Request.told)).map_right Option.join).map_right
    (Option.map Request.told)

/-- Options are independent unless one is the other. -/
theorem independent_newOption (hr : r.WellFormed) {file file' sectionName sectionName' : String}
    {t u : Definition}
    (hne : file = file' → sectionName = sectionName' → t.plainName ≠ u.plainName) :
    Independent (fun r => (newOption file sectionName t).request.perform r)
      (fun r => (newOption file' sectionName' u).request.perform r) r := by
  have hsections : Independent
      (fun r : Registry => r.onSection file sectionName fun s => s.onBody (·.define t))
      (fun r : Registry => r.onSection file' sectionName' fun s => s.onBody (·.define u)) r :=
    hr.independent_onSection (fun s => name_define s t) (fun s => name_define s u)
      fun hfile hsection d hd s hs =>
        (Section.updatesDefine t).independent (Section.updatesDefine u)
          ((hr.documents d hd).sections s hs).sorted
          fun hsame => absurd hsame (hne hfile hsection)
  exact (hsections.map_left (Option.map Request.told)).map_right (Option.map Request.told)

/-- Two things are made independently, if neither goes into the other. -/
theorem independent_perform (hr : r.WellFormed) (h : ¬b.place <+: c.place)
    (h' : ¬c.place <+: b.place) :
    Independent (fun r => b.request.perform r) (fun r => c.request.perform r) r := by
  cases b with
  | newFile name => exact independent_newFile hr h
  | newSection file t =>
    cases c with
    | newFile name => exact (independent_newFile hr h').symm
    | newSection file' u => exact independent_newSection hr (by simpa [place] using h)
    | newOption file' sectionName u =>
      exact independent_newSection_newOption hr (by simpa [place] using h)
  | newOption file sectionName t =>
    cases c with
    | newFile name => exact (independent_newFile hr h').symm
    | newSection file' u =>
      refine (independent_newSection_newOption hr ?_).symm
      simpa [place] using h'
    | newOption file' sectionName' u => exact independent_newOption hr (by simpa [place] using h)

/-- What goes into a thing that is there is not ready before it. -/
theorem Ready.not_prefix (hb : Ready palette r b) (hc : Ready palette r c)
    (hne : b.place ≠ c.place) : ¬b.place <+: c.place := by
  intro hprefix
  -- The place of the first would be on the way to what the second goes into, and so not free.
  have howner : b.place <+: c.owner := by
    obtain ⟨rest, hrest⟩ := hprefix
    have hrest' : rest ≠ [] := by
      rintro rfl
      exact hne (by rw [← hrest, List.append_nil])
    unfold Creation.owner
    rw [← hrest, List.dropLast_append_of_ne_nil hrest']
    exact List.prefix_append b.place rest.dropLast
  exact hb.free (hc.owner.of_prefix howner)

/-- Two things that are ready may be made in either order. -/
theorem make_comm (hr : r.Founded palette) (hb : Ready palette r b) (hc : Ready palette r c)
    (hne : b.place ≠ c.place) : (b.make r).bind c.make = (c.make r).bind b.make := by
  have hindependent := independent_perform hr.wellFormed (hb.not_prefix hc hne)
    (hc.not_prefix hb hne.symm)
  obtain ⟨s, hs, -⟩ := hb.exists_make hr
  obtain ⟨t, ht, -⟩ := hc.exists_make hr
  have granted {c : Creation} {r s : Registry} (h : c.make r = some s) :
      Request.isGranted (c.request.perform r).result.2 = true ∧
        (c.request.perform r).result.1 = s := by
    unfold make at h
    split at h
    · next hgranted => exact ⟨hgranted, Option.some.inj h⟩
    · cases h
  obtain ⟨hb', rfl⟩ := granted hs
  obtain ⟨hc', rfl⟩ := granted ht
  rw [hs, ht]
  show c.make (b.request.perform r).result.1 = b.make (c.request.perform r).result.1
  unfold make
  rw [hindependent.right_answer, hindependent.left_answer, if_pos hb', if_pos hc',
    hindependent.state]

/-! ## Many things -/

/-- The things can be made one after the other. -/
structure Pending (palette : Palette) (r : Registry) (cs : List Creation) : Prop where
  valid : ∀ c ∈ cs, c.IsValid palette
  distinct : (cs.map place).Nodup
  free : ∀ c ∈ cs, ¬r.Has c.place
  ordered : Ordered r.Has cs

/-- An order stays one if more is there from the start. -/
theorem Ordered.mono {there there' : List String → Prop} {cs : List Creation}
    (h : Ordered there cs) (hthere : ∀ p, there p → there' p) : Ordered there' cs := by
  induction cs generalizing there there' with
  | nil => trivial
  | cons c cs ih =>
    exact ⟨hthere _ h.1, ih h.2 fun p hp => hp.imp_left (hthere p)⟩

/-- What comes after a thing still comes after its owner when that thing is there from the start. -/
theorem Ordered.remove {there : List String → Prop} {before after : List Creation}
    (h : Ordered there (before ++ c :: after)) :
    Ordered (fun p => there p ∨ p = c.place) (before ++ after) := by
  induction before generalizing there with
  | nil => exact h.2
  | cons b before ih =>
    refine ⟨.inl h.1, (ih h.2).mono fun p hp => ?_⟩
    rcases hp with (hp | hp) | hp
    · exact .inl (.inl hp)
    · exact .inr hp
    · exact .inl (.inr hp)

/-- The first of the things is ready. -/
theorem Pending.ready {cs : List Creation} (h : Pending palette r (c :: cs)) :
    Ready palette r c where
  valid := h.valid c (List.mem_cons_self ..)
  owner := h.ordered.1
  free := h.free c (List.mem_cons_self ..)

/-- The others are still to be made when one has been. -/
theorem Pending.remove {before after : List Creation}
    (h : Pending palette r (before ++ c :: after)) {s : Registry}
    (hs : ∀ p, s.Has p ↔ r.Has p ∨ p = c.place) : Pending palette s (before ++ after) := by
  have hsub : (before ++ after).Sublist (before ++ c :: after) :=
    (List.sublist_cons_self c after).append_left before
  have hdistinct : (c.place :: (before ++ after).map place).Nodup := by
    have hperm : (before ++ c :: after).Perm (c :: (before ++ after)) := List.perm_middle
    exact ((hperm.map place).nodup_iff).1 h.distinct
  refine ⟨fun b hb => h.valid b (hsub.subset hb), (List.nodup_cons.1 hdistinct).2,
    fun b hb hhas => ?_, h.ordered.remove.mono fun p hp => (hs p).2 hp⟩
  rcases (hs b.place).1 hhas with hhas | hplace
  · exact h.free b (hsub.subset hb) hhas
  · exact (List.nodup_cons.1 hdistinct).1 (hplace ▸ List.mem_map_of_mem hb)

/-- What is left to be made after the first is as ready as before. -/
theorem Pending.tail {cs : List Creation} (h : Pending palette r (c :: cs)) {s : Registry}
    (hs : ∀ p, s.Has p ↔ r.Has p ∨ p = c.place) : Pending palette s cs := by
  have hnil : Pending palette r ([] ++ c :: cs) := h
  exact hnil.remove hs

end Creation

namespace Registry

open Creation

variable {palette : Palette} {r : Registry} {cs : List Creation}

/-- All is accepted, and is all that is new. -/
theorem exists_create (hr : r.Founded palette) (h : Pending palette r cs) :
    ∃ s, create cs r = some s ∧ s.Founded palette ∧
      ∀ p, s.Has p ↔ r.Has p ∨ ∃ c ∈ cs, c.place = p := by
  induction cs generalizing r with
  | nil => exact ⟨r, rfl, hr, fun p => by simp⟩
  | cons c cs ih =>
    obtain ⟨s, hs, hhas⟩ := h.ready.exists_make hr
    obtain ⟨t, ht, hfounded, hhas'⟩ := ih (founded_make hr hs) (h.tail hhas)
    refine ⟨t, ?_, hfounded, fun p => ?_⟩
    · rw [create, hs]
      exact ht
    · rw [hhas', hhas, or_assoc, List.exists_mem_cons_iff, eq_comm]

/-- A thing that is ready may be made first. -/
theorem create_middle (hr : r.Founded palette) {c : Creation} {before after : List Creation}
    (h : Pending palette r (before ++ c :: after)) (hc : Ready palette r c) :
    create (before ++ c :: after) r = create (c :: (before ++ after)) r := by
  -- The induction is on what is made before: after its first thing the other one is ready still, so
  -- it goes to the front of the rest, and the two at the front are exchanged.
  induction before generalizing r with
  | nil => rfl
  | cons b before ih =>
    have hne : b.place ≠ c.place := by
      have hdistinct := (List.nodup_cons.1 h.distinct).1
      exact fun heq => hdistinct (heq ▸ List.mem_map_of_mem (by simp))
    obtain ⟨s, hs, hhas⟩ := h.ready.exists_make hr
    have hc' : Ready palette s c := by
      refine ⟨hc.valid, (hhas _).2 (.inl hc.owner), fun hplace => ?_⟩
      rcases (hhas _).1 hplace with hplace | hplace
      · exact hc.free hplace
      · exact hne hplace.symm
    have hrest := ih (founded_make hr hs) (h.tail hhas) hc'
    calc create (b :: before ++ c :: after) r
        = (b.make r).bind fun s => create (before ++ c :: after) s := rfl
      _ = (b.make r).bind fun s => create (c :: (before ++ after)) s := by
          rw [hs]
          exact hrest
      _ = ((b.make r).bind c.make).bind (create (before ++ after)) := by
          rw [Option.bind_assoc]
          rfl
      _ = ((c.make r).bind b.make).bind (create (before ++ after)) := by
          rw [make_comm hr h.ready hc hne]
      _ = create (c :: (b :: before ++ after)) r := by
          rw [Option.bind_assoc]
          rfl

/-- The order does not matter, as long as everything comes after what it goes into. -/
theorem create_eq_of_perm (hr : r.Founded palette) {cs' : List Creation}
    (h : Pending palette r cs) (h' : Pending palette r cs') (hperm : cs.Perm cs') :
    create cs r = create cs' r := by
  -- The first thing of the second order is moved to the front of the first one.
  induction cs' generalizing r cs with
  | nil => rw [hperm.eq_nil]
  | cons c cs' ih =>
    obtain ⟨before, after, rfl⟩ := List.append_of_mem (hperm.mem_iff.2 (List.mem_cons_self ..))
    have hrest : (before ++ after).Perm cs' :=
      (List.perm_cons c).1 (List.perm_middle.symm.trans hperm)
    obtain ⟨s, hs, hhas⟩ := h'.ready.exists_make hr
    rw [create_middle hr h h'.ready, create, create, hs]
    exact ih (founded_make hr hs) (h.remove hhas) (h'.tail hhas) hrest

/-! ## The order in which files are read -/

/-- Priorities can be compared over a third one. -/
theorem priority_trans (a b c : Document) (hab : decide (b.priority ≤ a.priority) = true)
    (hbc : decide (c.priority ≤ b.priority) = true) : decide (c.priority ≤ a.priority) = true := by
  simp only [decide_eq_true_eq] at hab hbc ⊢
  omega

/-- Of two priorities one is at least as great as the other. -/
theorem priority_total (a b : Document) :
    (decide (b.priority ≤ a.priority) || decide (a.priority ≤ b.priority)) = true := by
  simp only [Bool.or_eq_true, decide_eq_true_eq]
  omega

/-- Files of one priority are read in the order of their names. -/
theorem filter_byPriority (r : Registry) (priority : Int) :
    r.byPriority.filter (fun d => d.priority = priority) =
      r.documents.filter fun d => d.priority = priority := by
  -- Among themselves they need no sorting, so they keep their order.
  have hsorted : (r.documents.filter fun d => d.priority = priority).Pairwise
      fun a b => decide (b.priority ≤ a.priority) = true := by
    refine List.pairwise_iff_forall_sublist.2 fun {a b} hab => ?_
    have ha := List.of_mem_filter (hab.subset (List.mem_cons_self ..))
    have hb := List.of_mem_filter (hab.subset (List.mem_cons_of_mem _ (List.mem_cons_self ..)))
    simp only [decide_eq_true_eq] at ha hb ⊢
    omega
  have hkept : (r.documents.filter fun d => d.priority = priority).Sublist r.byPriority :=
    List.sublist_mergeSort priority_trans priority_total hsorted List.filter_sublist
  have hsub := hkept.filter fun d => decide (d.priority = priority)
  rw [List.filter_filter] at hsub
  simp only [Bool.and_self] at hsub
  have hperm : (r.byPriority.filter fun d => d.priority = priority).Perm
      (r.documents.filter fun d => d.priority = priority) := (List.mergeSort_perm _ _).filter _
  exact (hsub.eq_of_length hperm.length_eq.symm).symm

/-- A file comes before another one in the order in which files are read. -/
def ReadBefore (a b : Document) : Prop :=
  b.priority < a.priority ∨ (b.priority = a.priority ∧ a.name < b.name)

/-- The priorities and names alone say in which order files are read. -/
theorem WellFormed.pairwise_byPriority (hr : r.WellFormed) : r.byPriority.Pairwise ReadBefore := by
  have hsorted : r.byPriority.Pairwise fun a b => decide (b.priority ≤ a.priority) = true :=
    List.pairwise_mergeSort priority_trans priority_total r.documents
  refine List.pairwise_iff_forall_sublist.2 fun {a b} hab => ?_
  have hle : b.priority ≤ a.priority :=
    of_decide_eq_true (List.pairwise_iff_forall_sublist.1 hsorted hab)
  by_cases heq : b.priority = a.priority
  · -- Both are among the files of their priority, which stand in the order of their names.
    have hfilter := hab.filter fun d => decide (d.priority = a.priority)
    rw [r.filter_byPriority a.priority] at hfilter
    simp only [List.filter_cons, heq, decide_true, if_true, List.filter_nil] at hfilter
    exact .inr ⟨heq, List.pairwise_iff_forall_sublist.1 hr.sorted
      (hfilter.trans List.filter_sublist)⟩
  · exact .inl (by omega)

end Registry

/-- However a host orders definitions that are good in themselves and are for different places, as
long as everything comes after what it goes into, all of them are accepted, and the registry is the
same in all its parts. So are its files, in which nothing is but what was defined, the order in
which they are read, and their texts. -/
theorem Registry.create_perm {env : Environment} {cs cs' : List Creation}
    (hvalid : ∀ c ∈ cs, c.IsValid env.palette) (hdistinct : (cs.map Creation.place).Nodup)
    (h : Creation.Ordered (· = []) cs) (h' : Creation.Ordered (· = []) cs')
    (hperm : cs.Perm cs') :
    ∃ r, create cs { env } = some r ∧ create cs' { env } = some r ∧
      (∀ p, r.Has p ↔ p = [] ∨ ∃ c ∈ cs, c.place = p) ∧ r.byPriority.Pairwise ReadBefore := by
  have hfounded : ({ env } : Registry).Founded env.palette :=
    ⟨⟨.nil, List.forall_mem_nil _⟩, ⟨rfl, List.forall_mem_nil _⟩⟩
  have hempty (p : List String) : ({ env } : Registry).Has p ↔ p = [] := Roster.has_nil
  have hfree (c : Creation) : ¬({ env } : Registry).Has c.place := by
    rw [hempty]
    cases c <;> exact List.cons_ne_nil _ _
  have hpending : Creation.Pending env.palette { env } cs :=
    ⟨hvalid, hdistinct, fun c _ => hfree c, h.mono fun p => (hempty p).2⟩
  have hpending' : Creation.Pending env.palette { env } cs' :=
    ⟨fun c hc => hvalid c (hperm.mem_iff.2 hc), ((hperm.map _).nodup_iff).1 hdistinct,
      fun c _ => hfree c, h'.mono fun p => (hempty p).2⟩
  obtain ⟨r, hr, hmade, hhas⟩ := exists_create hfounded hpending
  refine ⟨r, hr, ?_, fun p => (hhas p).trans (or_congr_left (hempty p)),
    hmade.wellFormed.pairwise_byPriority⟩
  rw [← create_eq_of_perm hfounded hpending hpending' hperm, hr]

/-- A few definitions, some of them for things that go into one another. -/
def installing : List Creation :=
  [.newFile "net", .newSection "net" { name := "proxy" }, .newFile "2000|app",
    .newSection "app" { name := "look" },
    .newOption "app" "look"
      { name := "mode", kind := .enum, labels := ["plain", "big"], default := some "big" },
    .newOption "app" "look" { name := "depth", kind := .integer, hi := 9, default := some "3" }]

/-- The same definitions in another order. -/
def reinstalling : List Creation :=
  [.newFile "2000|app", .newSection "app" { name := "look" },
    .newOption "app" "look" { name := "depth", kind := .integer, hi := 9, default := some "3" },
    .newOption "app" "look"
      { name := "mode", kind := .enum, labels := ["plain", "big"], default := some "big" },
    .newFile "net", .newSection "net" { name := "proxy" }]

/-- Both orders give the same registry, in which the options are sorted. -/
theorem Registry.create_perm_installing :
    ∃ r, Registry.create installing { env := { dir := "/etc" } } = some r ∧
      Registry.create reinstalling { env := { dir := "/etc" } } = some r ∧
      (r.entries.map fun e => (e.fullName, e.valueText)) =
        [("app.look.depth", some "3"), ("app.look.mode", some "big")] := by
  have hvalid : ∀ c ∈ installing, c.IsValid ({ dir := "/etc" } : Environment).palette := by
    have valid {α : Type} {made : Except Failure α} (h : made.toBool = true) :
        ∃ a, made = .ok a := by
      cases made with
      | error failure => cases h
      | ok a => exact ⟨a, rfl⟩
    simp only [installing, List.forall_mem_cons]
    exact ⟨valid (by decide +kernel), valid (by decide +kernel), valid (by decide +kernel),
      valid (by decide +kernel), valid (by decide +kernel), valid (by decide +kernel),
      List.forall_mem_nil _⟩
  have hperm : installing.Perm reinstalling := by
    show ([_, _] ++ [_, _, _, _] : List Creation).Perm ([_, _, _, _] ++ [_, _])
    exact List.perm_append_comm.trans (.append_right _ (.cons _ (.cons _ (.swap _ _ _))))
  have hnet : (Document.splitPriority "net").2 = "net" := by decide
  have happ : (Document.splitPriority "2000|app").2 = "app" := by decide
  obtain ⟨r, hr, hr', -, -⟩ := Registry.create_perm hvalid (by decide +kernel)
    (by simp [installing, Creation.Ordered, Creation.owner, Creation.place, hnet, happ])
    (by simp [reinstalling, Creation.Ordered, Creation.owner, Creation.place, hnet, happ]) hperm
  have hentries : ((create installing { env := { dir := "/etc" } }).map fun r =>
      r.entries.map fun e => (e.fullName, e.valueText)) =
        some [("app.look.depth", some "3"), ("app.look.mode", some "big")] := by
    decide +kernel
  rw [hr] at hentries
  exact ⟨r, hr, hr', Option.some.inj hentries⟩

end TypedConfig
