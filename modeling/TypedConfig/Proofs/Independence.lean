import TypedConfig.Proofs.WellFormed
import TypedConfig.Roster.Put

/-!
# Independent operations

Two operations are independent in a state if it makes no difference to either of them, nor to the
state that both lead to, which of them comes first (`Independent`). Operations on a part are
independent in the whole if they are so in the part (`Independent.part`).

The levels of a registry are rosters, and an operation on one of them says what a name leads to,
according to what it leads to now (`Updates`). Under different names such operations are
independent, and under one name they are if they are so in what is there (`Updates.independent`).
The second half of the module gives the operations that add files, sections and options, and those
that go further down, as updates of their level.
-/

namespace TypedConfig

/-- Three computations in a row may be put together from either end. -/
theorem Traced.bind_assoc {α β γ : Type} (x : Traced α) (f : α → Traced β) (g : β → Traced γ) :
    (x >>= f) >>= g = x >>= fun a => f a >>= g := by
  show (⟨_, _⟩ : Traced γ) = ⟨_, _⟩
  simp only [events_bind, result_bind, List.append_assoc]

/-- It makes no difference which of two operations comes first. -/
structure Independent {σ α β : Type} (f : σ → Traced (σ × α)) (g : σ → Traced (σ × β)) (s : σ) :
    Prop where
  /-- Both orders end in the same state. -/
  state : (g (f s).result.1).result.1 = (f (g s).result.1).result.1
  /-- The first operation lets the world know the same in both orders. -/
  left_events : (f (g s).result.1).events = (f s).events
  /-- The first operation answers the same in both orders. -/
  left_answer : (f (g s).result.1).result.2 = (f s).result.2
  right_events : (g (f s).result.1).events = (g s).events
  right_answer : (g (f s).result.1).result.2 = (g s).result.2

/-- A part of a state. -/
structure Part (σ τ : Type) where
  get : σ → τ
  set : σ → τ → σ
  get_set : ∀ s t, get (set s t) = t
  set_set : ∀ s t u, set (set s t) u = set s u

/-- Changes a part by an operation that may look at the rest. -/
def Part.run {σ τ α : Type} (p : Part σ τ) (f : σ → τ → Traced (τ × α)) (s : σ) :
    Traced (σ × α) := do
  let (t, a) ← f s (p.get s)
  pure (p.set s t, a)

namespace Independent

variable {σ τ α β γ δ : Type} {s : σ}

/-- Independence goes both ways. -/
theorem symm {f : σ → Traced (σ × α)} {g : σ → Traced (σ × β)} (h : Independent f g s) :
    Independent g f s where
  state := h.state.symm
  left_events := h.right_events
  left_answer := h.right_answer
  right_events := h.left_events
  right_answer := h.left_answer

/-- An operation that does nothing and gives one answer is independent of all others. -/
theorem of_pure (a : α) (g : σ → Traced (σ × β)) (s : σ) :
    Independent (fun s => pure (s, a)) g s :=
  ⟨rfl, rfl, rfl, rfl, rfl⟩

/-- An operation may give its answer in other words. -/
theorem map_left {f : σ → Traced (σ × α)} {g : σ → Traced (σ × β)} (h : Independent f g s)
    (k : α → γ) :
    Independent
      (fun s => do
        let (s, a) ← f s
        pure (s, k a)) g s where
  state := h.state
  left_events := congrArg (· ++ []) h.left_events
  left_answer := congrArg k h.left_answer
  right_events := h.right_events
  right_answer := h.right_answer

/-- What is made of an answer does not matter. -/
theorem map_right {f : σ → Traced (σ × α)} {g : σ → Traced (σ × β)} (h : Independent f g s)
    (l : β → δ) :
    Independent f
      (fun s => do
        let (s, b) ← g s
        pure (s, l b)) s :=
  (h.symm.map_left l).symm

/-- Only the states that are passed count, and these have what both operations keep. -/
theorem congr {f f' : σ → Traced (σ × α)} {g g' : σ → Traced (σ × β)} (P : σ → Prop)
    (h : Independent f g s) (hs : P s) (hf : ∀ s, P s → f' s = f s) (hg : ∀ s, P s → g' s = g s)
    (hf' : P (f s).result.1) (hg' : P (g s).result.1) : Independent f' g' s := by
  constructor <;> simp only [hf s hs, hg s hs, hf _ hg', hg _ hf']
  · exact h.state
  · exact h.left_events
  · exact h.left_answer
  · exact h.right_events
  · exact h.right_answer

/-- Operations on a part do not notice each other if the part does not. -/
theorem part (p : Part σ τ) {f : σ → τ → Traced (τ × α)} {g : σ → τ → Traced (τ × β)}
    (hf : ∀ s t, f (p.set s t) = f s) (hg : ∀ s t, g (p.set s t) = g s)
    (h : Independent (f s) (g s) (p.get s)) : Independent (p.run f) (p.run g) s := by
  constructor <;>
    simp only [Part.run, Traced.result_bind, Traced.result_pure, Traced.events_bind,
      Traced.events_pure, hf, hg, p.get_set, p.set_set]
  · rw [h.state]
  · rw [h.left_events]
  · rw [h.left_answer]
  · rw [h.right_events]
  · rw [h.right_answer]

end Independent

/-! ## Rosters -/

namespace Roster

variable {α β γ : Type} [Named α] {xs : List α}

/-- Changes what a name leads to. -/
def update (n : String) (act : Option α → Traced (Option α × β)) (xs : List α) :
    Traced (List α × β) := do
  let (x, b) ← act (find? n xs)
  pure (put n x xs, b)

/-- An action that leaves under a name what fits it. -/
def Keeps (n : String) (act : Option α → Traced (Option α × β)) : Prop :=
  ∀ x, Fits n x → Fits n (act x).result.1

/-- What is done under different names is independent, and what is done under one name if it is so
there. -/
theorem Sorted.independent_update (h : Sorted xs) {m n : String}
    {act : Option α → Traced (Option α × β)} {act' : Option α → Traced (Option α × γ)}
    (hact : Keeps m act) (hact' : Keeps n act')
    (hsame : m = n → Independent act act' (find? n xs)) :
    Independent (update m act) (update n act') xs := by
  have hfits := hact _ (fits_find? m xs)
  have hfits' := hact' _ (fits_find? n xs)
  by_cases hmn : m = n
  · subst hmn
    obtain ⟨hstate, hevents, hanswer, hevents', hanswer'⟩ := hsame rfl
    constructor <;>
      simp only [update, Traced.result_bind, Traced.result_pure, Traced.events_bind,
        Traced.events_pure, h.find?_put_self hfits, h.find?_put_self hfits']
    · rw [h.put_put hfits (hact' _ hfits), h.put_put hfits' (hact _ hfits'), hstate]
    · rw [hevents]
    · rw [hanswer]
    · rw [hevents']
    · rw [hanswer']
  · have hm := find?_put_of_ne hfits hmn xs
    have hn := find?_put_of_ne hfits' (Ne.symm hmn) xs
    constructor <;>
      simp only [update, Traced.result_bind, Traced.result_pure, Traced.events_bind,
        Traced.events_pure, hm, hn]
    exact h.put_comm hmn hfits hfits'

end Roster

/-! ## Levels -/

/-- An operation on a state that says what a name leads to in one of its rosters. -/
structure Updates {σ α β : Type} [Named α] (p : Part σ (List α)) (n : String)
    (f : σ → Traced (σ × β)) where
  /-- What becomes of the thing of the name, and what the operation answers. -/
  act : σ → Option α → Traced (Option α × β)
  /-- The roster itself counts only in what the name leads to. -/
  act_set : ∀ s xs, act (p.set s xs) = act s
  keeps : ∀ s, Roster.Keeps n (act s)
  eq_run : ∀ s, f s = p.run (fun s => Roster.update n (act s)) s

/-- Operations on things of two names are independent, and those on one name are if their actions
are. -/
theorem Updates.independent {σ α β γ : Type} [Named α] {p : Part σ (List α)} {m n : String}
    {f : σ → Traced (σ × β)} {g : σ → Traced (σ × γ)} (u : Updates p m f) (v : Updates p n g)
    {s : σ} (h : Roster.Sorted (p.get s))
    (hsame : m = n → Independent (u.act s) (v.act s) (Roster.find? n (p.get s))) :
    Independent f g s := by
  have hupdates := h.independent_update (u.keeps s) (v.keeps s) hsame
  refine Independent.congr (fun _ => True) (hupdates.part p ?_ ?_) trivial (fun s _ => u.eq_run s)
    (fun s _ => v.eq_run s) trivial trivial
  · exact fun t xs => by rw [u.act_set]
  · exact fun t xs => by rw [v.act_set]

namespace Updates

variable {σ α β : Type} [Named α] {p : Part σ (List α)} {n : String} {f : σ → Traced (σ × β)}
  {s : σ}

/-- Under its own name an update leaves what it makes of the thing there. -/
theorem find?_self (u : Updates p n f) (h : Roster.Sorted (p.get s)) :
    Roster.find? n (p.get (f s).result.1) =
      (u.act s (Roster.find? n (p.get s))).result.1 := by
  rw [u.eq_run s]
  show Roster.find? n (p.get (p.set s _)) = _
  rw [p.get_set]
  exact h.find?_put_self (u.keeps s _ (Roster.fits_find? n _))

/-- An update leaves the other names alone. -/
theorem find?_of_ne (u : Updates p n f) {k : String} (hne : n ≠ k) :
    Roster.find? k (p.get (f s).result.1) = Roster.find? k (p.get s) := by
  rw [u.eq_run s]
  show Roster.find? k (p.get (p.set s _)) = _
  rw [p.get_set]
  exact Roster.find?_put_of_ne (u.keeps s _ (Roster.fits_find? n _)) hne _

end Updates

/-! ### Changing what is there -/

section Found

variable {α β γ : Type} {f : α → Traced (α × β)}

/-- An operation on a thing as one on what a name leads to. There is no answer where it leads to
nothing. -/
def onFound (f : α → Traced (α × β)) : Option α → Traced (Option α × Option β)
  | none => pure (none, none)
  | some x => do
    let (y, b) ← f x
    pure (some y, some b)

/-- Operations that are independent on a thing are so on what a name leads to. -/
theorem independent_onFound {g : α → Traced (α × γ)} {x : Option α}
    (h : ∀ y ∈ x, Independent f g y) : Independent (onFound f) (onFound g) x := by
  cases x with
  | none => exact ⟨rfl, rfl, rfl, rfl, rfl⟩
  | some y =>
    obtain ⟨hstate, hevents, hanswer, hevents', hanswer'⟩ := h y rfl
    exact ⟨congrArg some hstate, congrArg (· ++ []) hevents, congrArg some hanswer,
      congrArg (· ++ []) hevents', congrArg some hanswer'⟩

variable [Named α] {n : String} {xs : List α}

/-- An operation that keeps names leaves under a name what fits it. -/
theorem keeps_onFound (hf : ∀ x, Named.name (f x).result.1 = Named.name x) (n : String) :
    Roster.Keeps n (onFound f) := by
  intro x hx
  cases x with
  | none => exact Roster.fits_none n
  | some x => exact Roster.fits_some ((hf x).trans (hx x rfl))

/-- Where a name leads to nothing, nothing is done. -/
theorem update_onFound_of_none (h : Roster.find? n xs = none) (f : α → Traced (α × β)) :
    Roster.update n (onFound f) xs = pure (xs, none) := by
  have hput : Roster.put n none xs = xs := Roster.erase_of_find?_eq_none h
  simp only [Roster.update, h, onFound, Traced.pure_bind, hput]

/-- Where it leads to a thing, this is replaced. -/
theorem update_onFound_of_some {x : α} (h : Roster.find? n xs = some x) (f : α → Traced (α × β)) :
    Roster.update n (onFound f) xs = (do
      let (y, b) ← f x
      pure (Roster.replace n y xs, some b)) := by
  have hput (y : α) : Roster.put n (some y) xs = Roster.replace n y xs :=
    Roster.put_some_of_find?_eq_some h y
  simp only [Roster.update, h, onFound, Traced.bind_assoc, Traced.pure_bind, hput]

end Found

/-! ### Adding what is not there -/

section Free

variable {α β : Type}

/-- Makes a thing under a name that leads to nothing, if there is no problem with it, and lets the
world know. -/
def onFree (taken : Failure) (made : Except Failure α) (events : α → List Event) (answer : α → β) :
    Option α → Traced (Option α × Except Failure β)
  | some x => pure (some x, .error taken)
  | none =>
    match made with
    | .error failure => pure (none, .error failure)
    | .ok x => do
      Traced.tell (events x)
      pure (some x, .ok (answer x))

variable [Named α] {n : String} {xs : List α} (taken : Failure) (events : α → List Event)
  (answer : α → β)

/-- A thing that is made under its own name fits it. -/
theorem keeps_onFree {made : Except Failure α} (hmade : ∀ x, made = .ok x → Named.name x = n) :
    Roster.Keeps n (onFree taken made events answer) := by
  intro x hx
  cases x with
  | some x => exact hx
  | none =>
    cases made with
    | error failure => exact Roster.fits_none n
    | ok x => exact Roster.fits_some (hmade x rfl)

/-- Where a name leads to a thing, nothing is made. -/
theorem update_onFree_of_some {x : α} (h : Roster.find? n xs = some x) (made : Except Failure α) :
    Roster.update n (onFree taken made events answer) xs = pure (xs, .error taken) := by
  have hput : Roster.put n (some x) xs = xs := h ▸ Roster.put_find? n xs
  simp only [Roster.update, h, onFree, Traced.pure_bind, hput]

/-- Where it leads to nothing, a thing is made there, or there is a problem with it. -/
theorem update_onFree_of_none (h : Roster.find? n xs = none) (made : Except Failure α) :
    Roster.update n (onFree taken made events answer) xs = (match made with
      | .error failure => pure (xs, .error failure)
      | .ok x => do
        Traced.tell (events x)
        pure (Roster.insert x xs, .ok (answer x))) := by
  have hput (x : α) : Roster.put n (some x) xs = Roster.insert x xs :=
    Roster.put_some_of_find?_eq_none h x
  have hkept : Roster.put n none xs = xs := Roster.erase_of_find?_eq_none h
  cases made with
  | error failure => simp only [Roster.update, h, onFree, Traced.pure_bind, hkept]
  | ok x => simp only [Roster.update, h, onFree, Traced.bind_assoc, Traced.pure_bind, hput]

end Free

/-! ### The levels of a registry -/

/-- The options of a section. -/
def Section.entriesPart : Part Section (List Entry) where
  get s := s.entries
  set s entries := { s with entries }
  get_set _ _ := rfl
  set_set _ _ _ := rfl

/-- The sections of a file. -/
def Document.sectionsPart : Part Document (List Section) where
  get d := d.sections
  set d sections := { d with sections }
  get_set _ _ := rfl
  set_set _ _ _ := rfl

/-- The files of a registry. -/
def Registry.documentsPart : Part Registry (List Document) where
  get r := r.documents
  set r documents := { r with documents }
  get_set _ _ := rfl
  set_set _ _ _ := rfl

/-- An option is added under its plain name. -/
def Section.updatesDefine (d : Definition) :
    Updates entriesPart d.plainName fun s => s.onBody (·.define d) where
  act s := onFree (.duplicate .option (s.path d.plainName))
    (Entry.ofDefinition? s.file s.name s.palette d) (fun e => [e.notification]) id
  act_set _ _ := rfl
  keeps _ := keeps_onFree _ _ _ fun _ he => (Entry.wellFormed_of_ofDefinition? he).2
  eq_run s := by
    unfold onBody Body.define Part.run
    cases he : s.entry? d.plainName with
    | some e =>
      have hfind : Roster.find? d.plainName (entriesPart.get s) = some e := he
      simp only [he, update_onFree_of_some _ _ _ hfind, Option.isSome_some, if_true]
      rfl
    | none =>
      have hfind : Roster.find? d.plainName (entriesPart.get s) = none := he
      simp only [he, update_onFree_of_none _ _ _ hfind]
      cases Entry.ofDefinition? s.file s.name s.palette d <;> rfl

/-- A section is added under its name. -/
def Document.updatesAddSection (palette : Palette) (s : SectionDefinition) :
    Updates sectionsPart s.name fun d => pure (d.addSection palette s) where
  act d := onFree (.duplicate .section (d.name ++ "." ++ s.name))
    (Section.ofDefinition? d.name palette s) (fun _ => []) fun _ => ()
  act_set _ _ := rfl
  keeps _ := keeps_onFree _ _ _ fun _ hs => by
    rw [Section.eq_of_ofDefinition? hs]
    rfl
  eq_run d := by
    unfold addSection Part.run
    cases hs : d.section? s.name with
    | some t =>
      have hfind : Roster.find? s.name (sectionsPart.get d) = some t := hs
      simp only [update_onFree_of_some _ _ _ hfind, Option.isSome_some, if_true]
      rfl
    | none =>
      have hfind : Roster.find? s.name (sectionsPart.get d) = none := hs
      simp only [update_onFree_of_none _ _ _ hfind]
      cases Section.ofDefinition? d.name palette s <;> rfl

/-- What is done in a section is done under its name. -/
def Document.updatesOnSection {α : Type} (name : String) {f : Section → Traced (Section × α)}
    (hf : ∀ s, (f s).result.1.name = s.name) :
    Updates sectionsPart name fun d => d.onSection name f where
  act _ := onFound f
  act_set _ _ := rfl
  keeps _ := keeps_onFound hf name
  eq_run d := by
    unfold onSection Part.run
    cases hs : d.section? name with
    | some s =>
      have hfind : Roster.find? name (sectionsPart.get d) = some s := hs
      simp only [update_onFound_of_some hfind, Traced.bind_assoc]
      rfl
    | none =>
      have hfind : Roster.find? name (sectionsPart.get d) = none := hs
      simp only [update_onFound_of_none hfind]
      rfl

/-- A file is added under its plain name. -/
def Registry.updatesAddFile (name : String) :
    Updates documentsPart (Document.splitPriority name).2 fun r => pure (r.addFile name) where
  act _ := onFree (.duplicate .file (Document.splitPriority name).2) (Document.ofName? name)
    (fun _ => []) fun _ => ()
  act_set _ _ := rfl
  keeps _ := keeps_onFree _ _ _ fun _ hd => by
    rw [Document.eq_of_ofName? hd]
    rfl
  eq_run r := by
    unfold addFile Part.run
    cases hd : r.document? (Document.splitPriority name).2 with
    | some d =>
      have hfind : Roster.find? (Document.splitPriority name).2 (documentsPart.get r) = some d := hd
      dsimp only
      rw [hd, update_onFree_of_some _ _ _ hfind]
      rfl
    | none =>
      have hfind : Roster.find? (Document.splitPriority name).2 (documentsPart.get r) = none := hd
      dsimp only
      rw [hd, update_onFree_of_none _ _ _ hfind]
      cases Document.ofName? name <;> rfl

/-- What is done in a file is done under its name. It may depend on what the files share. -/
def Registry.updatesOnDocument {α : Type} (name : String)
    {f : Environment → Document → Traced (Document × α)}
    (hf : ∀ env d, (f env d).result.1.name = d.name) :
    Updates documentsPart name fun r => r.onDocument name (f r.env) where
  act r := onFound (f r.env)
  act_set _ _ := rfl
  keeps r := keeps_onFound (hf r.env) name
  eq_run r := by
    unfold onDocument Part.run
    cases hd : r.document? name with
    | some d =>
      have hfind : Roster.find? name (documentsPart.get r) = some d := hd
      simp only [update_onFound_of_some hfind, Traced.bind_assoc]
      rfl
    | none =>
      have hfind : Roster.find? name (documentsPart.get r) = none := hd
      simp only [update_onFound_of_none hfind]
      rfl

/-- What is done in files of different names is independent, and in one file if it is so there. -/
theorem Registry.WellFormed.independent_onDocument {α β : Type} {r : Registry} (hr : r.WellFormed)
    {m n : String} {f : Environment → Document → Traced (Document × α)}
    {g : Environment → Document → Traced (Document × β)}
    (hf : ∀ env d, (f env d).result.1.name = d.name)
    (hg : ∀ env d, (g env d).result.1.name = d.name)
    (hsame : m = n → ∀ d ∈ r.documents, Independent (f r.env) (g r.env) d) :
    Independent (fun r => r.onDocument m (f r.env)) (fun r => r.onDocument n (g r.env)) r :=
  (updatesOnDocument m hf).independent (updatesOnDocument n hg) hr.sorted fun hmn =>
    independent_onFound fun d hd => hsame hmn d (Roster.mem_of_find?_eq_some hd)

/-- What is done in sections of different names is independent, and in one section if it is so
there. -/
theorem Document.WellFormed.independent_onSection {α β : Type} {d : Document} (hd : d.WellFormed)
    {m n : String} {f : Section → Traced (Section × α)} {g : Section → Traced (Section × β)}
    (hf : ∀ s, (f s).result.1.name = s.name) (hg : ∀ s, (g s).result.1.name = s.name)
    (hsame : m = n → ∀ s ∈ d.sections, Independent f g s) :
    Independent (fun d => d.onSection m f) (fun d => d.onSection n g) d :=
  (updatesOnSection m hf).independent (updatesOnSection n hg) hd.sorted fun hmn =>
    independent_onFound fun s hs => hsame hmn s (Roster.mem_of_find?_eq_some hs)

/-- A file keeps its name, whatever is done in a section. -/
theorem Document.name_onSection {α : Type} (d : Document) (name : String)
    (f : Section → Traced (Section × α)) : (d.onSection name f).result.1.name = d.name := by
  unfold onSection
  split <;> rfl

/-- In a registry, too, it is only in one section of one file that it matters what is done. -/
theorem Registry.WellFormed.independent_onSection {α β : Type} {r : Registry} (hr : r.WellFormed)
    {file file' m n : String} {f : Section → Traced (Section × α)}
    {g : Section → Traced (Section × β)} (hf : ∀ s, (f s).result.1.name = s.name)
    (hg : ∀ s, (g s).result.1.name = s.name)
    (hsame : file = file' → m = n → ∀ d ∈ r.documents, ∀ s ∈ d.sections, Independent f g s) :
    Independent (fun r => r.onSection file m f) (fun r => r.onSection file' n g) r := by
  have hdocument : Independent (fun r => r.onDocument file fun d => d.onSection m f)
      (fun r => r.onDocument file' fun d => d.onSection n g) r :=
    hr.independent_onDocument (fun _ d => d.name_onSection m f) (fun _ d => d.name_onSection n g)
      fun hfile d hd => (hr.documents d hd).independent_onSection hf hg
        fun hsection => hsame hfile hsection d hd
  exact (hdocument.map_left Option.join).map_right Option.join

end TypedConfig
