import TypedConfig.Proofs.Evolution.Registry

/-!
# Files that take turns

What is done with several files is done with one after the other: each acts as it stands, on the
disk that the ones before it have left (`inTurns`). A file has one turn only, so when it comes the
file is still what it was before the first one, and afterwards it stays what its turn made of it
(`Registry.visits_eachFile`). No failure takes a turn from another file.
-/

namespace TypedConfig

/-- What a file's turn makes of it, and the answer. -/
structure Turn (α : Type) where
  before : Document
  after : Document
  answer : Except Failure α

variable {α : Type}

/-- Files take turns, the first one on the first disk and each other one on the disk that the one
before leaves. -/
inductive Turns (act : Document → Disk → OnDisk Document (Except Failure α)) :
    Disk → List (Turn α) → Disk → Prop
  | done (disk : Disk) : Turns act disk [] disk
  | next {disk disk₁ disk' : Disk} {d d' : Document} {answer : Except Failure α}
      {turns : List (Turn α)} (h : act d disk = (d', disk₁, answer))
      (rest : Turns act disk₁ turns disk') : Turns act disk (⟨d, d', answer⟩ :: turns) disk'

/-- The files act in this order, each as it stands in the list and on the disk that the one before
it has left. -/
def inTurns (act : Document → Disk → Traced (OnDisk Document (Except Failure α))) :
    List Document → Disk → Traced (List (Turn α) × Disk)
  | [], disk => pure ([], disk)
  | d :: ds, disk => do
    let (d', disk, answer) ← act d disk
    let (turns, disk) ← inTurns act ds disk
    pure (⟨d, d', answer⟩ :: turns, disk)

section

variable (act : Document → Disk → Traced (OnDisk Document (Except Failure α)))

/-- Each file of the list has one turn, in the order of the list. -/
theorem map_before_inTurns (ds : List Document) (disk : Disk) :
    (inTurns act ds disk).result.1.map Turn.before = ds := by
  induction ds generalizing disk with
  | nil => rfl
  | cons d ds ih => exact congrArg (d :: ·) (ih _)

/-- These are turns. -/
theorem turns_inTurns (ds : List Document) (disk : Disk) :
    Turns (fun d disk => (act d disk).result) disk (inTurns act ds disk).result.1
      (inTurns act ds disk).result.2 := by
  induction ds generalizing disk with
  | nil => exact .done disk
  | cons d ds ih => exact .next rfl (ih _)

end

namespace Registry

/-- What turns of files do to a registry: each file is what its turn made of it, and the others are
what they were. The answers are those of the files, under their names. -/
structure Takes (r : Registry) (turns : List (Turn α)) (r' : Registry)
    (answers : List (String × Except Failure α)) : Prop where
  answers : answers = turns.map fun t => (t.before.name, t.answer)
  env : r'.env = r.env
  names : Roster.names r'.documents = Roster.names r.documents
  after : ∀ t ∈ turns, r'.document? t.before.name = some t.after
  others : ∀ name, (∀ t ∈ turns, t.before.name ≠ name) → r'.document? name = r.document? name

/-- The registry with another file in the place of one of the same name. -/
def putDocument (r : Registry) (d : Document) : Registry :=
  { r with documents := Roster.replace d.name d r.documents }

/-- A file that is put is found under its name. -/
theorem document?_putDocument_self {r : Registry} {d : Document}
    (h : (r.document? d.name).isSome) : (r.putDocument d).document? d.name = some d :=
  Roster.find?_replace_self rfl h

/-- Files of other names are found as before. -/
theorem document?_putDocument_of_ne (r : Registry) {d : Document} {name : String}
    (h : d.name ≠ name) : (r.putDocument d).document? name = r.document? name :=
  Roster.find?_replace_of_ne rfl h _

/-- One turn and then others, of other files. -/
theorem Takes.next {r s : Registry} {d d' : Document} {answer : Except Failure α}
    {turns : List (Turn α)} {answers : List (String × Except Failure α)}
    (hd : (r.document? d.name).isSome) (hname : d'.name = d.name)
    (hother : ∀ t ∈ turns, t.before.name ≠ d.name) (h : (r.putDocument d').Takes turns s answers) :
    r.Takes (⟨d, d', answer⟩ :: turns) s ((d.name, answer) :: answers) where
  answers := by rw [h.answers, List.map_cons]
  env := h.env
  names := h.names.trans (Roster.names_replace rfl _)
  after := by
    refine List.forall_mem_cons.2 ⟨?_, h.after⟩
    rw [← hname] at hd hother
    show s.document? d.name = some d'
    rw [← hname, h.others d'.name hother, document?_putDocument_self hd]
  others name hne := by
    obtain ⟨hfirst, hrest⟩ := List.forall_mem_cons.1 hne
    rw [h.others name hrest, document?_putDocument_of_ne r (hname ▸ hfirst)]

/-- Something is done with files of a registry in turns: all that happens are the turns of these
files, in this order, what becomes of the registry and of the disk is what the turns leave, and the
answers are those of the turns. -/
structure Visits (r : Registry)
    (act : Document → Disk → Traced (OnDisk Document (Except Failure α)))
    (ds : List Document) (disk : Disk) {β : Type} (x : Traced (OnDisk Registry β))
    (answers : List (String × Except Failure α)) : Prop where
  events : x.events = (inTurns act ds disk).events
  disk_eq : x.result.2.1 = (inTurns act ds disk).result.2
  takes : r.Takes (inTurns act ds disk).result.1 x.result.1 answers

/-- A file of a registry acts: it is replaced by what becomes of it, and nothing else happens. -/
structure Acts (s : Registry) (act : Traced (OnDisk Document (Except Failure α)))
    (x : Traced (OnDisk Registry (Except Failure α))) : Prop where
  events : x.events = act.events
  result : x.result = (s.putDocument act.result.1, act.result.2)

/-- What is done with the file of a name is an act of that file, if it keeps its name. -/
theorem acts_withFile {s : Registry} {d : Document} (hd : s.document? d.name = some d) (disk : Disk)
    {f : Document → Traced (OnDisk Document (Except Failure α))}
    (hname : (f d).result.1.name = d.name) : s.Acts (f d) (s.withFile disk d.name f) := by
  unfold withFile
  rw [hd]
  constructor
  · simp only [Traced.events_bind, Traced.events_pure, List.append_nil]
  · simp only [Traced.result_bind, Traced.result_pure, putDocument, hname]

variable {f : Registry → Disk → String → Traced (OnDisk Registry (Except Failure α))}
  {act : Document → Disk → Traced (OnDisk Document (Except Failure α))} {env : Environment}

/-- What is done with files of different names is done in turns, if it is an act of the file in any
registry that has it. -/
theorem visits_eachFile (hact : ∀ d disk, (act d disk).result.1.name = d.name) {ds : List Document}
    (hf : ∀ s : Registry, s.env = env → ∀ d ∈ ds, s.document? d.name = some d → ∀ disk,
      s.Acts (act d disk) (f s disk d.name))
    {r : Registry} (henv : r.env = env) (hdistinct : ds.Pairwise fun a b => a.name ≠ b.name)
    (hds : ∀ d ∈ ds, r.document? d.name = some d) (disk : Disk) :
    r.Visits act ds disk (eachFile f r disk (Roster.names ds))
      (eachFile f r disk (Roster.names ds)).result.2.2 := by
  induction ds generalizing r disk with
  | nil => exact ⟨rfl, rfl, rfl, rfl, rfl, List.forall_mem_nil _, fun _ _ => rfl⟩
  | cons d ds ih =>
    obtain ⟨hd, hds⟩ := List.forall_mem_cons.1 hds
    obtain ⟨hfirst, hdistinct⟩ := List.pairwise_cons.1 hdistinct
    have hstep := hf r henv d (List.mem_cons_self ..) hd disk
    have hname := hact d disk
    -- The files that are left are in the registry as they were.
    have hleft : ∀ e ∈ ds,
        (r.putDocument (act d disk).result.1).document? e.name = some e := by
      intro e he
      rw [document?_putDocument_of_ne r (hname ▸ hfirst e he)]
      exact hds e he
    have hrest := ih (r := r.putDocument (act d disk).result.1)
      (fun s hs e he => hf s hs e (List.mem_cons_of_mem _ he)) henv hdistinct hleft
      (act d disk).result.2.1
    have hother : ∀ t ∈ (inTurns act ds (act d disk).result.2.1).result.1,
        t.before.name ≠ d.name := by
      intro t ht
      have hmem := List.mem_map_of_mem (f := Turn.before) ht
      rw [map_before_inTurns] at hmem
      exact (hfirst t.before hmem).symm
    show r.Visits act (d :: ds) disk (eachFile f r disk (d.name :: Roster.names ds))
      (eachFile f r disk (d.name :: Roster.names ds)).result.2.2
    simp only [eachFile]
    constructor
    · simp only [Traced.events_bind, Traced.events_pure, List.append_nil, inTurns, hstep.events,
        hstep.result, hrest.events]
    · simp only [Traced.result_bind, Traced.result_pure, inTurns, hstep.result, hrest.disk_eq]
    · simp only [Traced.result_bind, Traced.result_pure, inTurns, hstep.result]
      exact hrest.takes.next (by rw [hd]; rfl) hname hother

/-- A reload keeps the name of a file. -/
theorem name_renew (d : Document) (env : Environment) (disk : Disk) :
    (d.renew env disk).result.1.name = d.name := by
  have h : d.EvolvesIn (fun _ => True) env.palette _ _ := .renew d d.admits_true env disk
  exact h.name_eq

/-- A reload, with a log record of a failure. -/
def renewLogged (env : Environment) (d : Document) (disk : Disk) :
    Traced (OnDisk Document (Except Failure Report)) := do
  let (d', disk, answer) ← d.renew env disk
  match answer with
  | .ok _ => pure ()
  | .error failure =>
    Traced.log .error ("Failed to reload " ++ d.name ++ ": " ++ failure.message)
  pure (d', disk, answer)

/-- A failure is only logged. -/
theorem result_renewLogged (env : Environment) (d : Document) (disk : Disk) :
    (renewLogged env d disk).result = (d.renew env disk).result := by
  unfold renewLogged
  simp only [Traced.result_bind]
  split <;> rfl

/-- Files of different names are reloaded in turns. -/
theorem visits_reloadEach {r : Registry} {ds : List Document}
    (hdistinct : ds.Pairwise fun a b => a.name ≠ b.name)
    (hds : ∀ d ∈ ds, r.document? d.name = some d) (disk : Disk) :
    r.Visits (renewLogged r.env) ds disk (r.reloadEach disk (Roster.names ds))
      (r.reloadEach disk (Roster.names ds)).result.2.2 := by
  refine visits_eachFile (fun d disk => ?_) (fun s henv d _ hd disk => ?_) rfl hdistinct hds disk
  · rw [result_renewLogged]
    exact name_renew d r.env disk
  · have hacts : s.Acts (d.renew r.env disk) (s.reload disk d.name) := by
      rw [← henv]
      exact acts_withFile (f := fun d => d.renew s.env disk) hd disk (name_renew d s.env disk)
    unfold renewLogged
    generalize d.renew r.env disk = act at hacts ⊢
    obtain ⟨es, d', disk', answer⟩ := act
    constructor
    · simp only [Traced.events_bind, hacts.events, hacts.result]
      cases answer <;> rfl
    · simp only [Traced.result_bind, hacts.result]
      cases answer <;> rfl

/-- Files of different names are reloaded in turns, each of which is a reload of that file. -/
theorem exists_turns_of_reloadEach {r : Registry} {ds : List Document}
    (hdistinct : ds.Pairwise fun a b => a.name ≠ b.name)
    (hds : ∀ d ∈ ds, r.document? d.name = some d) (disk : Disk) :
    ∃ turns : List (Turn Report), turns.map Turn.before = ds ∧
      Turns (fun d disk => (d.renew r.env disk).result) disk turns
        (r.reloadEach disk (Roster.names ds)).result.2.1 ∧
      r.Takes turns (r.reloadEach disk (Roster.names ds)).result.1
        (r.reloadEach disk (Roster.names ds)).result.2.2 := by
  have hvisits := visits_reloadEach hdistinct hds disk
  refine ⟨_, map_before_inTurns (renewLogged r.env) ds disk, ?_, hvisits.takes⟩
  have hturns := turns_inTurns (renewLogged r.env) ds disk
  simp only [result_renewLogged] at hturns
  rw [hvisits.disk_eq]
  exact hturns

end Registry

end TypedConfig
