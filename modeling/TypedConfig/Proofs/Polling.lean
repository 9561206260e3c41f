import TypedConfig.Proofs.Apart
import TypedConfig.Proofs.Bootstrap
import TypedConfig.Proofs.Bulk

/-!
# Polling for files that were modified

A poll reloads the files that look different on disk from what was noted of them when it starts,
each in its turn (`Registry.exists_turns_of_reloadModified`). Every turn that succeeds notes what
the file looks like after all that it has written itself. Where the files keep apart, it changes
nothing that was noted of the others, by the new file, the temporary one or a backup
(`Orderly.reload`). So after a poll without failures a second one finds nothing
(`Registry.reloadModified_settles`).
-/

namespace TypedConfig

open Disk

section

variable {env : Environment} {ds : List Document} {d : Document} {disk disk' : Disk}

/-! ## One turn -/

/-- A backup leaves the files as they were. -/
theorem Orderly.make (h : Orderly env ds disk) (hd : d ∈ ds) :
    Orderly env ds (Backup.make disk (d.path env)).result.1 ∧
      ∀ b ∈ ds, (Backup.make disk (d.path env)).result.1.stat? (b.path env) =
        disk.stat? (b.path env) := by
  unfold Backup.make
  dsimp only
  cases hcopy : disk.copy (d.path env) (Backup.freePath disk (d.path env)) with
  | none => exact ⟨h, fun _ _ => rfl⟩
  | some made =>
    obtain ⟨p, content, mode, -, -, hp, htop, hfree, rfl⟩ :=
      exists_of_copy hcopy (Backup.freePath_spec disk (d.path env)).1
    -- No link stands at the path of the backup, so the copy has the place that this path names.
    obtain ⟨time, htime, hpath⟩ := Backup.exists_freePath_eq h.time (d.path env)
    have haside : d.Aside env (Backup.freePath disk (d.path env)) := hpath ▸ .backup htime
    rw [resolve?_of_no_link haside.namesFile ((h.apart disk (.inl rfl)).aside d hd _ haside)] at hp
    exact h.writeAt htop hfree (haside.entry?_ne hp) content mode

/-- Taking in a text changes the disk by a backup alone. -/
theorem Document.disk_parse (d : Document) (disk : Disk) (origin : String) (bytes : List UInt8) :
    (d.parse disk origin bytes).result.2.1 = disk ∨
      (d.parse disk origin bytes).result.2.1 = (Backup.make disk origin).result.1 := by
  unfold parse
  rw [Traced.result_bind]
  split
  · exact .inr rfl
  · exact .inl rfl

/-- A text that is taken in leaves a file at its path. -/
theorem Document.path_parse (d : Document) (env : Environment) (disk : Disk) (origin : String)
    (bytes : List UInt8) : (d.parse disk origin bytes).result.1.path env = d.path env := by
  have h : d.EvolvesIn (fun _ => True) env.palette _ _ := .parse d disk origin bytes
  unfold path fileName
  rw [h.name_eq]

/-- Where a missing file was made, the others are as they were. The file that is read may differ
from the one of the list in all but its path. -/
theorem Orderly.bootstrap (h : Orderly env ds disk) (hd : d ∈ ds) {x x' : Document} {made : Bool}
    (hpath : x.path env = d.path env) (hmade : (x.bootstrap env disk).result = (x', disk', made))
    (hthere : disk'.isThere (d.path env) = true) :
    Orderly env ds disk' ∧ ∀ b ∈ ds, b.name ≠ d.name →
      disk'.stat? (b.path env) = disk.stat? (b.path env) := by
  cases hbefore : disk.isThere (d.path env) with
  | true =>
    rw [Document.bootstrap_of_isThere (hpath ▸ hbefore)] at hmade
    obtain rfl := (Prod.mk.inj (Prod.mk.inj hmade).2).1
    exact ⟨h, fun _ _ _ => rfl⟩
  | false =>
    have htime := Document.now_save x env disk true
    unfold Document.bootstrap at hmade
    dsimp only at hmade
    rw [hpath, hbefore, if_neg Bool.false_ne_true, Traced.result_bind] at hmade
    generalize hsave : (x.save env disk true).result = saved at hmade htime
    obtain ⟨y, after, answer⟩ := saved
    have hspec := Document.save_spec true hsave
    rw [hpath] at hspec
    cases answer with
    | ok _ =>
      obtain ⟨⟨text, -, hinstalls⟩, -⟩ := hspec
      obtain rfl : after = disk' := (Prod.mk.inj (Prod.mk.inj hmade).2).1
      exact h.install hd hbefore (Document.isThere_dir_of_save hsave) hinstalls htime
    | error failure =>
      obtain rfl : after = disk' := (Prod.mk.inj (Prod.mk.inj hmade).2).1
      -- A write that fails adds nothing but directories, so the path would lead nowhere.
      have hgrows : after.Grows (Document.furnished env disk) := by
        rcases hspec.1 with hclears | ⟨-, rfl⟩
        · exact hclears.grows
        · exact .refl _
      obtain ⟨n, hn⟩ := Option.isSome_iff_exists.1 hthere
      have hmissing := h.there _ (furnishes_furnished env disk) d hd
      unfold isThere at hmissing hbefore
      rw [hgrows.stat? hn, hbefore] at hmissing
      cases hmissing

/-- A reload that succeeds notes what the file looks like at its end, leaves the others as they
were, and files go on keeping apart. -/
theorem Orderly.reload (h : Orderly env ds disk) (hd : d ∈ ds) {d' : Document} {report : Report}
    (hreload : (d.reload env disk).result = (d', disk', .ok report)) :
    Orderly env ds disk' ∧ d'.stamp = disk'.stamp? (d.path env) ∧
      ∀ b ∈ ds, b.name ≠ d.name → disk'.stat? (b.path env) = disk.stat? (b.path env) := by
  simp only [Document.reload, Traced.result_bind, Traced.result_pure] at hreload
  generalize hload : (d.markMissing.load env disk true).result = loaded at hreload
  obtain ⟨x, after, answer⟩ := loaded
  obtain ⟨rfl, hrest⟩ := Prod.mk.inj hreload
  obtain ⟨rfl, rfl⟩ := Prod.mk.inj hrest
  obtain ⟨stamp, disk₁, made, content, p, hmade, hread, hparse, rfl, rfl, -⟩ :=
    Document.exists_parse_of_load hload
  have hthere : disk₁.isThere (d.path env) = true := by
    obtain ⟨_, _, hstat, -⟩ := read?_eq_some_iff.1 hread
    unfold isThere
    rw [show d.path env = d.markMissing.path env from rfl, hstat]
    rfl
  -- A reload writes twice at most: the file, if it is missing, and a copy, if it is rejected.
  obtain ⟨hmiddle, hothers⟩ := h.bootstrap (x := d.markMissing) hd rfl hmade hthere
  have hafter : Orderly env ds p.2.1 ∧ ∀ b ∈ ds, p.2.1.stat? (b.path env) =
      disk₁.stat? (b.path env) := by
    rw [← hparse]
    rcases Document.disk_parse { d.markMissing with stamp } disk₁ (d.markMissing.path env) content
      with hkept | hbackup
    · rw [hkept]
      exact ⟨hmiddle, fun _ _ => rfl⟩
    · rw [hbackup]
      exact hmiddle.make (d := d) hd
  have hpath : p.1.path env = d.path env := by
    rw [← hparse]
    exact Document.path_parse _ env disk₁ _ content
  refine ⟨hafter.1, ?_, fun b hb hne => (hafter.2 b hb).trans (hothers b hb hne)⟩
  show p.2.1.stamp? (p.1.path env) = _
  rw [hpath]

/-! ## All turns -/

/-- After turns that succeed each file has noted what it looks like at their end, and the files
without a turn are what they were. -/
theorem Orderly.turns (h : Orderly env ds disk) (husual : ∀ d ∈ ds, d.reloading = none)
    {turns : List (Turn Report)}
    (hturns : Turns (fun d disk => (d.renew env disk).result) disk turns disk')
    (hmem : ∀ t ∈ turns, t.before ∈ ds)
    (hdistinct : turns.Pairwise fun t u => t.before.name ≠ u.before.name)
    (hok : ∀ t ∈ turns, ∃ report, t.answer = .ok report) :
    (∀ t ∈ turns, t.after.stamp = disk'.stamp? (t.before.path env)) ∧
      ∀ b ∈ ds, (∀ t ∈ turns, t.before.name ≠ b.name) →
        disk'.stat? (b.path env) = disk.stat? (b.path env) := by
  induction hturns with
  | done disk => exact ⟨List.forall_mem_nil _, fun _ _ _ => rfl⟩
  | @next disk disk₁ disk' d d' answer turns hact _ ih =>
    obtain ⟨⟨report, rfl⟩, hlater⟩ := List.forall_mem_cons.1 hok
    obtain ⟨hd, hmem⟩ := List.forall_mem_cons.1 hmem
    obtain ⟨hfirst, hdistinct⟩ := List.pairwise_cons.1 hdistinct
    have hreload : (d.reload env disk).result = (d', disk₁, .ok report) := by
      rw [← hact, Document.renew, husual d hd]
    obtain ⟨hmiddle, hstamp, hothers⟩ := h.reload hd hreload
    obtain ⟨hafter, hrest⟩ := ih hmiddle hmem hdistinct hlater
    refine ⟨List.forall_mem_cons.2 ⟨?_, hafter⟩, fun b hb hnone => ?_⟩
    · -- The file has no other turn, so what it has noted is still right.
      show d'.stamp = disk'.stamp? (d.path env)
      unfold stamp? at hstamp ⊢
      rw [hstamp, hrest d hd fun t ht => (hfirst t ht).symm]
    · obtain ⟨hne, hnone⟩ := List.forall_mem_cons.1 hnone
      rw [hrest b hb hnone, hothers b hb hne.symm]

end

/-! ## The poll -/

namespace Registry

variable {r : Registry}

/-- A poll only says which files it reloads. -/
theorem result_reloadModified (r : Registry) (disk : Disk) : (r.reloadModified disk).result =
    (r.reloadEach disk
      (Roster.names (r.byPriority.filter fun d => d.isModified r.env disk))).result := by
  unfold reloadModified
  dsimp only
  split <;> rfl

/-- Files that stand in the order of their priorities are polled as they stand. -/
theorem result_reloadModified_of_pairwise
    (h : r.documents.Pairwise fun a b => b.priority ≤ a.priority) (disk : Disk) :
    (r.reloadModified disk).result = (r.reloadEach disk
      (Roster.names (r.documents.filter fun d => d.isModified r.env disk))).result := by
  have hsorted : r.byPriority = r.documents :=
    List.mergeSort_of_pairwise (h.imp fun hle => decide_eq_true hle)
  rw [result_reloadModified, hsorted]

/-- A poll reloads the files that look different from what was noted when it starts, in turns by
priority and name. -/
theorem exists_turns_of_reloadModified (hr : r.WellFormed) (disk : Disk) :
    ∃ turns : List (Turn Report),
      Turns (fun d disk => (d.renew r.env disk).result) disk turns
          (r.reloadModified disk).result.2.1 ∧
        r.Takes turns (r.reloadModified disk).result.1 (r.reloadModified disk).result.2.2 ∧
        (turns.map Turn.before).Pairwise ReadBefore ∧
        ∀ d, d ∈ turns.map Turn.before ↔
          d ∈ r.documents ∧ disk.stamp? (d.path r.env) ≠ d.stamp := by
  have hmem (d : Document) : d ∈ r.byPriority.filter (fun d => d.isModified r.env disk) ↔
      d ∈ r.documents ∧ disk.stamp? (d.path r.env) ≠ d.stamp := by
    rw [List.mem_filter, r.byPriority_perm.mem_iff]
    simp [Document.isModified]
  have hnames : r.documents.Pairwise fun a b => a.name ≠ b.name :=
    hr.sorted.imp Roster.ne_of_lt
  have hdistinct : (r.byPriority.filter fun d => d.isModified r.env disk).Pairwise
      fun a b => a.name ≠ b.name :=
    ((r.byPriority_perm.pairwise_iff fun h => h.symm).2 hnames).sublist List.filter_sublist
  obtain ⟨turns, hbefore, hturns, htakes⟩ := exists_turns_of_reloadEach hdistinct
    (fun d hd => hr.document?_of_mem ((hmem d).1 hd).1) disk
  rw [r.result_reloadModified disk]
  refine ⟨turns, hturns, htakes, ?_, ?_⟩
  · rw [hbefore]
    exact hr.pairwise_byPriority.sublist List.filter_sublist
  · rw [hbefore]
    exact hmem

/-- A poll has an answer if it finds something. -/
theorem reloadModified_ne_nil {disk : Disk} {d : Document} (hd : d ∈ r.documents)
    (h : d.isModified r.env disk = true) : (r.reloadModified disk).result.2.2 ≠ [] := by
  have hmem : d ∈ r.byPriority.filter fun d => d.isModified r.env disk :=
    List.mem_filter.2 ⟨r.byPriority_perm.mem_iff.2 hd, h⟩
  rw [result_reloadModified]
  cases hfound : r.byPriority.filter fun d => d.isModified r.env disk with
  | nil =>
    rw [hfound] at hmem
    cases hmem
  | cons first others => exact List.cons_ne_nil _ _

/-- A poll that finds nothing does nothing. -/
theorem reloadModified_of_unmodified {disk : Disk}
    (h : ∀ d ∈ r.documents, disk.stamp? (d.path r.env) = d.stamp) :
    r.reloadModified disk = pure (r, disk, []) := by
  have hnone : (r.byPriority.filter fun d => d.isModified r.env disk) = [] := by
    refine List.filter_eq_nil_iff.2 fun d hd => ?_
    rw [Document.isModified, h d (r.byPriority_perm.mem_iff.1 hd)]
    simp
  unfold reloadModified
  rw [hnone]
  rfl

/-- No file looks modified after turns that have noted what their files look like at the end, if
that is also what was noted of the files without a turn. -/
theorem Takes.unmodified {r' : Registry} {turns : List (Turn Report)}
    {answers : List (String × Except Failure Report)} (htakes : r.Takes turns r' answers)
    (hr : r.WellFormed) {disk' : Disk}
    (hnoted : ∀ t ∈ turns, t.after.stamp = disk'.stamp? (t.before.path r.env))
    (hkept : ∀ d ∈ r.documents, (∀ t ∈ turns, t.before.name ≠ d.name) →
      disk'.stamp? (d.path r.env) = d.stamp) :
    ∀ d ∈ r'.documents, disk'.stamp? (d.path r'.env) = d.stamp := by
  intro d' hd'
  have hfind' : r'.document? d'.name = some d' :=
    (hr.sorted.of_names_eq htakes.names).find?_eq_some_iff.2 ⟨hd', rfl⟩
  -- Files of one name have one path in both registries.
  have hpath {d : Document} (hname : d.name = d'.name) : d'.path r'.env = d.path r.env := by
    unfold Document.path Document.fileName
    rw [htakes.env, hname]
  by_cases hturn : ∃ t ∈ turns, t.before.name = d'.name
  · obtain ⟨t, ht, hname⟩ := hturn
    have hafter := htakes.after t ht
    rw [hname, hfind'] at hafter
    rw [hpath hname, Option.some.inj hafter, hnoted t ht]
  · have hnone : ∀ t ∈ turns, t.before.name ≠ d'.name := fun t ht hname => hturn ⟨t, ht, hname⟩
    have hfind : r.document? d'.name = some d' := by
      rw [← htakes.others d'.name hnone, hfind']
    rw [hpath rfl]
    exact hkept d' (hr.sorted.find?_eq_some_iff.1 hfind).1 hnone

end Registry

/-- A poll reloads exactly the files whose stamp on disk differs from the one that was noted when
the poll starts, each once, in descending priority and by name among equals, and gives the answers
of all. Where they are reloaded as usual and keep apart on the disk, and no answer is a failure, a
second poll of what the first one leaves finds nothing, and does nothing. -/
theorem Registry.reloadModified_settles {r : Registry} (hr : r.Reachable) {disk disk' : Disk}
    {r' : Registry} {answers : List (String × Except Failure Report)}
    (h : (r.reloadModified disk).result = (r', disk', answers)) :
    (∃ turns : List (Turn Report),
      Turns (fun d disk => (d.renew r.env disk).result) disk turns disk' ∧
        r.Takes turns r' answers ∧ (turns.map Turn.before).Pairwise ReadBefore ∧
        ∀ d, d ∈ turns.map Turn.before ↔
          d ∈ r.documents ∧ disk.stamp? (d.path r.env) ≠ d.stamp) ∧
      ((∀ d ∈ r.documents, d.reloading = none) → Orderly r.env r.documents disk →
        (∀ answer ∈ answers, ∃ report, answer.2 = .ok report) →
          r'.reloadModified disk' = pure (r', disk', [])) := by
  have hwell := hr.wellFormed
  obtain ⟨turns, hturns, htakes, hordered, hmem⟩ := exists_turns_of_reloadModified hwell disk
  rw [h] at hturns htakes
  refine ⟨⟨turns, hturns, htakes, hordered, hmem⟩, fun husual horderly hok => ?_⟩
  have hold : ∀ t ∈ turns, t.before ∈ r.documents :=
    fun t ht => ((hmem t.before).1 (List.mem_map_of_mem ht)).1
  have hdistinct : turns.Pairwise fun t u => t.before.name ≠ u.before.name :=
    (List.pairwise_map.1 hordered).imp_of_mem fun ht hu hbefore =>
      hwell.name_ne_of_readBefore (hold _ ht) (hold _ hu) hbefore
  have hanswers : ∀ t ∈ turns, ∃ report, t.answer = .ok report := by
    intro t ht
    refine hok (t.before.name, t.answer) ?_
    have hall : answers = _ := htakes.answers
    rw [hall]
    exact List.mem_map_of_mem ht
  obtain ⟨hnoted, hothers⟩ := horderly.turns husual hturns hold hdistinct hanswers
  refine reloadModified_of_unmodified (htakes.unmodified hwell hnoted fun d hd hnone => ?_)
  -- Without a turn the file looked as it was noted, and what stands at its path has stayed.
  have hstamp : disk.stamp? (d.path r.env) = d.stamp := by
    by_contra hmodified
    obtain ⟨t, ht, rfl⟩ := List.mem_map.1 ((hmem d).2 ⟨hd, hmodified⟩)
    exact hnone t ht rfl
  rw [← hstamp]
  unfold stamp?
  rw [hothers d hd hnone]

/-- Answers without a failure are reports. -/
theorem Registry.exists_report {answers : List (String × Except Failure Report)}
    (h : (answers.all fun answer => answer.2.isOk) = true) :
    ∀ answer ∈ answers, ∃ report, answer.2 = .ok report := by
  rintro ⟨name, outcome⟩ hmem
  have hok := List.all_eq_true.1 h _ hmem
  cases outcome with
  | ok report => exact ⟨report, rfl⟩
  | error failure => cases hok

/-- Settings with little to say, for short files. -/
def brief : Settings where
  productName := "W"
  productVersion := ""
  helpUrl := ""

/-- A disk with two small files. -/
def watchedDisk : Disk where
  nodes := [(["etc"], .directory), (["etc", "app.conf"], .file [10] 384 (.second 0)),
    (["etc", "net.conf"], .file [10] 384 (.second 0))]
  now := "20240101.000000"

/-- What a host has that has read both of them. -/
def watched : Registry where
  env := { dir := "/etc", settings := brief }
  documents := [{ name := "app", priority := 1000, stamp := some (.file (.second 0) 1) },
    { name := "net", priority := 1000, stamp := some (.file (.second 0) 1) }]

/-- A host can bring it about. -/
theorem reachable_watched : watched.Reachable :=
  ⟨watched.env, [.addFile "app", .addFile "net", .read "app", .read "net"], watchedDisk, rfl⟩

/-- The disk later on: one file is gone, and the other one has a version that is too new. -/
def laterDisk : Disk where
  nodes := [(["etc"], .directory),
    (["etc", "net.conf"], .file (Utf8.encode "config_version = 7".toList) 384 (.second 1))]
  now := "20240101.000000"

/-- The one is made again, and the other one is rejected and copied aside. Then there is nothing
left to reload. -/
theorem Registry.reloadModified_settles_later :
    ∃ r' disk' answers, (watched.reloadModified laterDisk).result = (r', disk', answers) ∧
      (answers.map fun answer => (answer.1, answer.2.toOption.map fun report =>
        (report.bootstrapped, report.backup))) = [("app", some (true, none)),
          ("net", some (false, some "/etc/net.conf.backup.20240101.000000"))] ∧
      r'.reloadModified disk' = pure (r', disk', []) := by
  have hanswers : ((watched.reloadModified laterDisk).result.2.2.map fun answer =>
      (answer.1, answer.2.toOption.map fun report => (report.bootstrapped, report.backup))) =
        [("app", some (true, none)),
          ("net", some (false, some "/etc/net.conf.backup.20240101.000000"))] ∧
      ((watched.reloadModified laterDisk).result.2.2.all fun answer => answer.2.isOk) = true := by
    rw [result_reloadModified_of_pairwise (by decide)]
    decide +kernel
  generalize hresult : (watched.reloadModified laterDisk).result = result at hanswers
  obtain ⟨r', disk', answers⟩ := result
  refine ⟨r', disk', answers, rfl, hanswers.1, ?_⟩
  have husual : ∀ d ∈ watched.documents, d.reloading.isNone = true := by decide
  have htime : (laterDisk.now.toList.all fun c => c.isDigit || c == '.') = true := by decide +kernel
  have horderly : Orderly watched.env watched.documents laterDisk := by
    refine .of_no_links (fun c hc => ?_) ?_ ?_ ?_ ?_
    · simpa using List.all_eq_true.1 htime c hc
    · decide +kernel
    · simp [laterDisk]
    · decide +kernel
    · decide +kernel
  refine (Registry.reloadModified_settles reachable_watched hresult).2
    (fun d hd => Option.isNone_iff_eq_none.1 (husual d hd)) horderly (exists_report hanswers.2)

/-! ## What the paths of the files alone do not give -/

/-- Whether a link stands at a place. -/
def Node.isLink : Node → Bool
  | .link _ => true
  | _ => false

/-- Files are reloaded as usual, no link stands at their paths and no two have one place. Still a
second poll finds something, although nothing has failed in the first one. -/
structure Registry.Unsettled (r : Registry) (disk : Disk) : Prop where
  reachable : r.Reachable
  usual : ∀ d ∈ r.documents, d.reloading.isNone = true
  files : ∀ d ∈ r.documents, ((disk.entry? (d.path r.env)).bind disk.node?).any Node.isLink = false
  places : (r.documents.filterMap fun d => disk.entry? (d.path r.env)).Nodup
  again : ∃ r' disk' answers, (r.reloadModified disk).result = (r', disk', answers) ∧
    (∀ answer ∈ answers, ∃ report, answer.2 = .ok report) ∧
    (r'.reloadModified disk').result.2.2 ≠ []

/-- A second poll finds something if a file looks modified after the first one. For files in the
order of their priorities that can be evaluated. -/
theorem Registry.exists_again {r : Registry} {disk : Disk}
    (hsorted : r.documents.Pairwise fun a b => b.priority ≤ a.priority)
    (h : ∃ result, (r.reloadEach disk
        (Roster.names (r.documents.filter fun d => d.isModified r.env disk))).result = result ∧
      (result.2.2.all fun answer => answer.2.isOk) = true ∧
      ∃ d ∈ result.1.documents, d.isModified result.1.env result.2.1 = true) :
    ∃ r' disk' answers, (r.reloadModified disk).result = (r', disk', answers) ∧
      (∀ answer ∈ answers, ∃ report, answer.2 = .ok report) ∧
      (r'.reloadModified disk').result.2.2 ≠ [] := by
  obtain ⟨⟨r', disk', answers⟩, hresult, hok, d, hd, hmodified⟩ := h
  rw [← result_reloadModified_of_pairwise hsorted] at hresult
  exact ⟨r', disk', answers, hresult, exists_report hok, reloadModified_ne_nil hd hmodified⟩

/-- A disk with two small files, where the path of the one leads through a link at the temporary
path of the other. -/
def crossedDisk : Disk where
  nodes := [(["etc"], .directory), (["etc", "app.conf"], .file [10] 384 (.second 0)),
    (["etc", "app.conf.weechattmp"], .link "/data"), (["data"], .directory),
    (["data", "x.conf"], .file [10] 384 (.second 0))]

/-- What a host has that has read both of them. -/
def crossed : Registry where
  env := { dir := "/etc", settings := brief }
  documents := [{ name := "app", priority := 1000, stamp := some (.file (.second 0) 1) },
    { name := "app.conf.weechattmp/x", priority := 1000, stamp := some (.file (.second 0) 1) }]

/-- A host can bring it about. -/
theorem reachable_crossed : crossed.Reachable :=
  ⟨crossed.env, [.addFile "app", .addFile "app.conf.weechattmp/x", .read "app",
    .read "app.conf.weechattmp/x"], crossedDisk, rfl⟩

/-- The first of them was removed. Where it is made again, the link is taken for a temporary file
that was left over, and then the path of the other one leads nowhere. -/
theorem unsettled_crossed : crossed.Unsettled (crossedDisk.drop ["etc", "app.conf"]) where
  reachable := reachable_crossed
  usual := by decide
  files := by decide +kernel
  places := by decide +kernel
  again := Registry.exists_again (by decide) ⟨_, rfl, by decide +kernel⟩

/-- A disk with a file of a version that is too new, where a link to a free place stands at the path
of its backup. -/
def copiedDisk : Disk where
  nodes := [(["etc"], .directory),
    (["etc", "app.conf"], .file (Utf8.encode "config_version = 7".toList) 384 (.second 0)),
    (["etc", "app.conf.backup.20240101.000000"], .link "/etc/net.conf")]
  now := "20240101.000000"

/-- What a host has that has added two files. -/
def copied : Registry where
  env := { dir := "/etc", settings := brief }
  documents := [{ name := "app", priority := 1000 }, { name := "net", priority := 1000 }]

/-- A host can bring it about. -/
theorem reachable_copied : copied.Reachable :=
  ⟨copied.env, [.addFile "app", .addFile "net"], copiedDisk, rfl⟩

/-- The copy of the one file goes through the link to the path of the other one. -/
theorem unsettled_copied : copied.Unsettled copiedDisk where
  reachable := reachable_copied
  usual := by decide
  files := by decide +kernel
  places := by decide +kernel
  again := Registry.exists_again (by decide) ⟨_, rfl, by decide +kernel⟩

/-- A disk with a small file in the directory of the files, and one above it. -/
def emergedDisk : Disk where
  nodes := [(["etc"], .directory), (["etc", "weechat"], .directory),
    (["etc", "weechat", "app.conf"], .file [10] 384 (.second 0)),
    (["etc", "net.conf"], .file [10] 384 (.second 0))]

/-- What a host has that has read the one and added the other. -/
def emerged : Registry where
  env := { dir := "/etc/weechat", settings := brief }
  documents := [{ name := "../net", priority := 1000 },
    { name := "app", priority := 1000, stamp := some (.file (.second 0) 1) }]

/-- A host can bring it about. -/
theorem reachable_emerged : emerged.Reachable :=
  ⟨emerged.env, [.addFile "app", .read "app", .addFile "../net"], emergedDisk, rfl⟩

/-- The directory was removed with its file. Where the file is made again, so is the directory, and
then the path of the other file leads to it. -/
theorem unsettled_emerged :
    emerged.Unsettled
      ((emergedDisk.drop ["etc", "weechat", "app.conf"]).drop ["etc", "weechat"]) where
  reachable := reachable_emerged
  usual := by decide
  files := by decide +kernel
  places := by decide +kernel
  again := Registry.exists_again (by decide) ⟨_, rfl, by decide +kernel⟩

/-- A disk with small files, where a file stands in the place of the directory, at the temporary
path of another one. -/
def supplantedDisk : Disk where
  nodes := [(["etc"], .directory), (["etc", "app.conf"], .file [10] 384 (.second 0)),
    (["etc", "app.conf.weechattmp"], .file [10] 384 (.second 0)),
    (["etc", "irc.conf"], .file [10] 384 (.second 0)),
    (["etc", "net.conf"], .file [10] 384 (.second 0))]

/-- What a host has that has read two files by absolute paths and added a third one. -/
def supplanted : Registry where
  env := { dir := "/etc/app.conf.weechattmp", settings := brief }
  documents := [{ name := "../net", priority := 1000 },
    { name := "/etc/app", priority := 1000, stamp := some (.file (.second 0) 1) },
    { name := "/etc/irc", priority := 1000, stamp := some (.file (.second 0) 1) }]

/-- A host can bring it about. -/
theorem reachable_supplanted : supplanted.Reachable :=
  ⟨supplanted.env, [.addFile "/etc/app", .addFile "/etc/irc",
    .read "/etc/app", .read "/etc/irc", .addFile "../net"], supplantedDisk, rfl⟩

/-- The two files were removed. Where the first one is made again, what stands in the place of the
directory is taken for a temporary file that was left over. With the second one the directory is
made, and then the path of the third one leads to it. -/
theorem unsettled_supplanted :
    supplanted.Unsettled ((supplantedDisk.drop ["etc", "app.conf"]).drop ["etc", "irc.conf"]) where
  reachable := reachable_supplanted
  usual := by decide
  files := by decide +kernel
  places := by decide +kernel
  again := Registry.exists_again (by decide) ⟨_, rfl, by decide +kernel⟩

/-- So it takes more than the paths of the files for polls to settle: no links at the temporary
paths and at those of backups, a directory that lets no path lead on once it is made, and one that
is not the temporary file of a file. -/
theorem Registry.unsettled_disks :
    crossed.Unsettled (crossedDisk.drop ["etc", "app.conf"]) ∧ copied.Unsettled copiedDisk ∧
      emerged.Unsettled
        ((emergedDisk.drop ["etc", "weechat", "app.conf"]).drop ["etc", "weechat"]) ∧
      supplanted.Unsettled ((supplantedDisk.drop ["etc", "app.conf"]).drop ["etc", "irc.conf"]) :=
  ⟨unsettled_crossed, unsettled_copied, unsettled_emerged, unsettled_supplanted⟩

end TypedConfig
