import TypedConfig.Proofs.Creation
import TypedConfig.Proofs.Turns

/-!
# Reading, reloading and writing all files

Whatever is done with all files is done in turns: every file has one, on the disk that the files
before it have left, whether those have failed or not. Reading and reloading go by priority and then
by name, writing by name, and the answer of the latter is the first failure
(`Registry.bulk_visits_all`).
-/

namespace TypedConfig.Registry

variable {α : Type} {r : Registry}

/-! ## The order of the files -/

/-- A registry has each of its files under the file's name. -/
theorem WellFormed.document?_of_mem (hr : r.WellFormed) {d : Document} (hd : d ∈ r.documents) :
    r.document? d.name = some d :=
  hr.sorted.find?_eq_some_iff.2 ⟨hd, rfl⟩

/-- All files have their place in the order of priorities. -/
theorem byPriority_perm (r : Registry) : r.byPriority.Perm r.documents :=
  List.mergeSort_perm _ _

/-- Files that are read one before the other have different names. -/
theorem WellFormed.name_ne_of_readBefore (hr : r.WellFormed) {a b : Document}
    (ha : a ∈ r.documents) (hb : b ∈ r.documents) (h : ReadBefore a b) : a.name ≠ b.name := by
  intro hname
  have hsame : some a = some b := by
    rw [← hr.document?_of_mem ha, hname, hr.document?_of_mem hb]
  obtain rfl := Option.some.inj hsame
  rcases h with hless | ⟨-, hless⟩
  · exact absurd hless (Int.lt_irrefl _)
  · exact String.lt_irrefl _ hless

/-- The files are found by their names, in the order of priorities as in that of the names, and no
two have one name. -/
theorem WellFormed.distinct_of_perm (hr : r.WellFormed) {ds : List Document}
    (hperm : ds.Perm r.documents) :
    (ds.Pairwise fun a b => a.name ≠ b.name) ∧ ∀ d ∈ ds, r.document? d.name = some d := by
  constructor
  · have hnames : r.documents.Pairwise fun a b => a.name ≠ b.name :=
      hr.sorted.imp Roster.ne_of_lt
    exact (hperm.pairwise_iff fun h => h.symm).2 hnames
  · exact fun d hd => hr.document?_of_mem (hperm.mem_iff.1 hd)

/-- The priorities and the names leave one order only. -/
theorem byPriority_eq_of_perm {ds : List Document} (hr : r.WellFormed)
    (hperm : ds.Perm r.documents) (hordered : ds.Pairwise ReadBefore) : r.byPriority = ds := by
  refine List.Perm.eq_of_pairwise (fun a b _ _ hab hba => ?_) hr.pairwise_byPriority hordered
    (r.byPriority_perm.trans hperm.symm)
  -- No two files come before one another.
  rcases hab with hab | ⟨heq, hab⟩
  · rcases hba with hba | ⟨heq, -⟩ <;> omega
  · rcases hba with hba | ⟨-, hba⟩
    · omega
    · exact absurd (String.lt_trans hab hba) (String.lt_irrefl _)

/-! ## The first failure -/

/-- The answer for all is a success where all are, and else the first failure. -/
structure AnswersFor (answer : Except Failure Unit) (answers : List (String × Except Failure α)) :
    Prop where
  ok_iff : answer = .ok () ↔ ∀ a ∈ answers, ∃ result, a.2 = .ok result
  error_iff : ∀ failure, answer = .error failure ↔ ∃ earlier name later,
    answers = earlier ++ (name, .error failure) :: later ∧
      ∀ a ∈ earlier, ∃ result, a.2 = .ok result

/-- The first failure, if there is one, is the answer for all. -/
theorem answersFor_firstFailure (answers : List (String × Except Failure α)) :
    AnswersFor (firstFailure answers) answers := by
  induction answers with
  | nil => exact ⟨by simp [firstFailure], by simp [firstFailure]⟩
  | cons a answers ih =>
    obtain ⟨name, answer⟩ := a
    cases answer with
    | ok result =>
      -- A success leaves the answer to the others.
      show AnswersFor (firstFailure answers) _
      refine ⟨?_, fun failure => ?_⟩
      · rw [ih.ok_iff, List.forall_mem_cons]
        exact ⟨fun h => ⟨⟨result, rfl⟩, h⟩, And.right⟩
      · rw [ih.error_iff]
        constructor
        · rintro ⟨earlier, failed, later, rfl, hok⟩
          exact ⟨(name, .ok result) :: earlier, failed, later, rfl,
            List.forall_mem_cons.2 ⟨⟨result, rfl⟩, hok⟩⟩
        · rintro ⟨earlier, failed, later, heq, hok⟩
          obtain ⟨-, h⟩ | ⟨rest, rfl, h⟩ := List.cons_eq_append_iff.1 heq
          · cases h
          · exact ⟨rest, failed, later, h, (List.forall_mem_cons.1 hok).2⟩
    | error first =>
      show AnswersFor (.error first) _
      refine ⟨?_, fun failure => ?_⟩
      · constructor
        · intro h
          cases h
        · intro h
          obtain ⟨result, hresult⟩ := h _ (List.mem_cons_self ..)
          cases hresult
      · constructor
        · intro h
          obtain rfl := Except.error.inj h
          exact ⟨[], name, answers, rfl, List.forall_mem_nil _⟩
        · rintro ⟨earlier, failed, later, heq, hok⟩
          obtain ⟨-, h⟩ | ⟨rest, rfl, -⟩ := List.cons_eq_append_iff.1 heq
          · cases h
            rfl
          · obtain ⟨result, hresult⟩ := hok _ (List.mem_cons_self ..)
            cases hresult

/-! ## All files -/

/-- A reading keeps the name of a file. -/
theorem name_read (d : Document) (env : Environment) (disk : Disk) :
    (d.read env disk).result.1.name = d.name := by
  have h : d.EvolvesIn (fun _ => True) env.palette _ _ := .read d env disk
  exact h.name_eq

/-- A writing keeps the name of a file. -/
theorem name_save (d : Document) (env : Environment) (disk : Disk) (defaults : Bool) :
    (d.save env disk defaults).result.1.name = d.name := by
  have h : d.EvolvesIn (fun _ => True) env.palette _ _ := .save d env disk defaults
  exact h.name_eq

/-- All files are read in turn. -/
theorem WellFormed.visits_readAll (hr : r.WellFormed) (disk : Disk) :
    r.Visits (fun d disk => d.read r.env disk) r.byPriority disk (r.readAll disk)
      (r.readAll disk).result.2.2 := by
  obtain ⟨hdistinct, hfound⟩ := hr.distinct_of_perm r.byPriority_perm
  refine visits_eachFile (fun d disk => name_read d r.env disk) (fun s henv d _ hd disk => ?_)
    rfl hdistinct hfound disk
  rw [← henv]
  exact acts_withFile (f := fun d => d.read s.env disk) hd disk (name_read d s.env disk)

/-- All files are reloaded in turn. -/
theorem WellFormed.visits_reloadAll (hr : r.WellFormed) (disk : Disk) :
    r.Visits (renewLogged r.env) r.byPriority disk (r.reloadAll disk)
      (r.reloadAll disk).result.2.2 := by
  obtain ⟨hdistinct, hfound⟩ := hr.distinct_of_perm r.byPriority_perm
  exact visits_reloadEach hdistinct hfound disk

/-- What is done to write all files, with the answers of all. -/
theorem WellFormed.visits_writeAll (hr : r.WellFormed) (disk : Disk) :
    ∃ answers, r.Visits (fun d disk => d.save r.env disk false) r.documents disk (r.writeAll disk)
      answers ∧ (r.writeAll disk).result.2.2 = firstFailure answers := by
  obtain ⟨hdistinct, hfound⟩ := hr.distinct_of_perm (.refl r.documents)
  have hvisits := visits_eachFile (f := fun r disk name => r.write disk name)
    (fun d disk => name_save d r.env disk false) (fun s henv d _ hd disk => by
      rw [← henv]
      exact acts_withFile (f := fun d => d.save s.env disk false) hd disk
        (name_save d s.env disk false)) rfl hdistinct hfound disk
  refine ⟨_, ⟨?_, hvisits.disk_eq, hvisits.takes⟩, rfl⟩
  rw [← hvisits.events]
  exact List.append_nil _

/-- Reading all files and reloading all files visits each file once, in descending priority and by
name among equals; writing them visits each once in the order of the names. Each gives its own
answer in its turn, which it has whatever has become of the files before it. Writing succeeds as a
whole where every file could be written, and else with the first failure. -/
theorem bulk_visits_all (hr : r.Reachable) (disk : Disk) :
    (r.byPriority.Perm r.documents ∧ r.byPriority.Pairwise ReadBefore ∧
      r.documents.Pairwise fun a b => a.name < b.name) ∧
    r.Visits (fun d disk => d.read r.env disk) r.byPriority disk (r.readAll disk)
      (r.readAll disk).result.2.2 ∧
    r.Visits (renewLogged r.env) r.byPriority disk (r.reloadAll disk)
      (r.reloadAll disk).result.2.2 ∧
    ∃ answers, r.Visits (fun d disk => d.save r.env disk false) r.documents disk (r.writeAll disk)
      answers ∧ AnswersFor (r.writeAll disk).result.2.2 answers := by
  have hwell := hr.wellFormed
  obtain ⟨answers, hvisits, hanswer⟩ := hwell.visits_writeAll disk
  refine ⟨⟨r.byPriority_perm, hwell.pairwise_byPriority, hwell.sorted⟩, hwell.visits_readAll disk,
    hwell.visits_reloadAll disk, answers, hvisits, ?_⟩
  rw [hanswer]
  exact answersFor_firstFailure answers

/-- A disk where directories stand in the places of two files, and none of the files is there. -/
def barredDisk : Disk where
  nodes := [(["etc"], .directory), (["etc", "irc.conf"], .directory),
    (["etc", "net.conf"], .directory)]

/-- Three files, the last of which comes first. -/
def barred : Registry where
  env := { dir := "/etc" }
  documents := [{ name := "app", priority := 1000 }, { name := "irc", priority := 1000 },
    { name := "net", priority := 2000 }]

/-- A run makes the three files. -/
theorem reachable_barred : barred.Reachable :=
  ⟨barred.env, [.addFile "irc", .addFile "2000|net", .addFile "app"], barredDisk, rfl⟩

/-- The order in which they are read. -/
theorem byPriority_barred : barred.byPriority = [{ name := "net", priority := 2000 },
    { name := "app", priority := 1000 }, { name := "irc", priority := 1000 }] := by
  have hperm : ([{ name := "net", priority := 2000 }] ++ [{ name := "app", priority := 1000 },
      { name := "irc", priority := 1000 }] : List Document).Perm barred.documents :=
    List.perm_append_comm
  refine byPriority_eq_of_perm reachable_barred.wellFormed hperm ?_
  unfold ReadBefore
  decide +kernel

/-- The two files that are barred fail, each in its turn, and the third one is made. Writing fails
with the first of the two failures, after the third file was written. -/
theorem bulk_visits_all_barred :
    ((barred.readAll barredDisk).result.2.2.map fun answer => (answer.1, answer.2.isOk)) =
        [("net", false), ("app", true), ("irc", false)] ∧
      ((barred.reloadAll barredDisk).result.2.2.map fun answer => (answer.1, answer.2.isOk)) =
        [("net", false), ("app", true), ("irc", false)] ∧
      (barred.writeAll barredDisk).result.2.2 = .error (.unwritable "/etc/irc.conf") ∧
      (barred.writeAll barredDisk).result.2.1.isThere "/etc/app.conf" = true := by
  obtain ⟨-, hread, hreload, answers, hwrite, hanswer⟩ :=
    bulk_visits_all reachable_barred barredDisk
  rw [byPriority_barred] at hread hreload
  refine ⟨?_, ?_, ?_, ?_⟩
  · rw [hread.takes.answers]
    decide +kernel
  · rw [hreload.takes.answers]
    decide +kernel
  · refine (hanswer.error_iff _).2 ⟨[("app", .ok ())], "irc",
      [("net", .error (.unwritable "/etc/net.conf"))], ?_, by simp⟩
    rw [hwrite.takes.answers]
    decide +kernel
  · rw [hwrite.disk_eq]
    decide +kernel

end TypedConfig.Registry
