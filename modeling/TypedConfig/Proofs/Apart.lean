import TypedConfig.Proofs.Backups
import TypedConfig.Proofs.Saving

/-!
# Files that keep apart

What is done with one file changes the disk at places of its own: its path, the temporary one beside
it and those of its backups (`Document.Aside`). Where no links stand there and no two files have one
place (`Apart`), a write and a backup leave the other files as they were, and the files go on
keeping apart. A write may also make the directory of the files, with which paths come to lead
further than they did; so the condition is put on the disk at each stage of that as well
(`Orderly`).
-/

namespace TypedConfig

open Disk

/-! ## The paths beside a file -/

/-- The time of a backup is written in digits and dots. -/
def Backup.IsTime (time : String) : Prop :=
  ∀ c ∈ time.toList, c.isDigit = true ∨ c = '.'

/-- A backup is made at the path of the file with a time behind it. -/
theorem Backup.exists_freePath_eq {d : Disk} (h : IsTime d.now) (path : String) :
    ∃ time, IsTime time ∧ freePath d path = path ++ mark ++ time := by
  obtain ⟨-, hplain | ⟨index, -, hnumbered, -⟩⟩ := freePath_spec d path
  · exact ⟨d.now, h, hplain⟩
  · refine ⟨d.now ++ ("." ++ Numeral.ofNat index), fun c hc => ?_, ?_⟩
    · simp only [String.toList_append, List.mem_append] at hc
      rcases hc with hc | hc | hc
      · exact h c hc
      · exact .inr (List.mem_singleton.1 hc)
      · exact .inl (Numeral.isDigit_of_mem_ofNat hc)
    · rw [hnumbered, numbered]
      simp only [String.append_assoc]

namespace Document

/-- The paths beside that of a file: the temporary one and those of its backups. -/
inductive Aside (d : Document) (env : Environment) : String → Prop
  | temporary : Aside d env (temporaryPath (d.path env))
  | backup {time : String} (h : Backup.IsTime time) :
    Aside d env (d.path env ++ Backup.mark ++ time)

variable {d : Document} {env : Environment} {path : String}

/-- The path of a file ends with the name of one, since it ends with the extension. -/
theorem namesFile_path (d : Document) (env : Environment) : NamesFile (d.path env) := by
  obtain ⟨ns, last, _, hbeside⟩ := d.exists_beside env
  exact ⟨ns, last, hbeside.names, hbeside.plain⟩

/-- A path beside that of a file is this path with an end, which is not that of a file. -/
theorem Aside.exists_append (h : d.Aside env path) :
    ∃ suffix : String, path = d.path env ++ suffix ∧ (∃ c ∈ suffix.toList, c ≠ '.') ∧
      '/' ∉ suffix.toList ∧ ∃ c, suffix.toList.getLast? = some c ∧ c ≠ 'f' := by
  cases h with
  | temporary =>
    exact ⟨temporaryExtension, rfl, ⟨'w', by decide, by decide⟩, by decide, 'p', by decide,
      by decide⟩
  | @backup time h =>
    refine ⟨Backup.mark ++ time, String.append_assoc .., ⟨'k', ?_, by decide⟩, ?_, ?_⟩
    · rw [String.toList_append]
      exact List.mem_append_left _ (by decide)
    · rw [String.toList_append]
      intro hmem
      rcases List.mem_append.1 hmem with hmem | hmem
      · exact absurd hmem (by decide)
      · rcases h _ hmem with hdigit | hdot
        · exact absurd hdigit (by decide)
        · exact absurd hdot (by decide)
    · rw [String.toList_append, List.getLast?_append]
      cases hc : time.toList.getLast? with
      | none => exact ⟨'.', by decide, by decide⟩
      | some c =>
        refine ⟨c, rfl, ?_⟩
        rintro rfl
        rcases h _ (List.mem_of_getLast? hc) with hdigit | hdot
        · exact absurd hdigit (by decide)
        · exact absurd hdot (by decide)

/-- A path beside the file ends with the name of a file. -/
theorem Aside.namesFile (h : d.Aside env path) : NamesFile path := by
  obtain ⟨suffix, rfl, ⟨c, hc, hdot⟩, hslash, -⟩ := h.exists_append
  exact (namesFile_append _ hc hdot hslash).1

/-- Nowhere a file stands at the place of a path beside a file. -/
theorem Aside.entry?_ne (h : d.Aside env path) {disk : Disk} {p : Place}
    (hp : disk.entry? path = some p) (b : Document) (disk' : Disk) :
    disk'.entry? (b.path env) ≠ some p := by
  intro hb
  obtain ⟨suffix, rfl, ⟨c, hc, hdot⟩, hslash, e, hend, hne⟩ := h.exists_append
  obtain ⟨q, last, hplace⟩ := (namesFile_append _ hc hdot hslash).2 disk p hp
  obtain ⟨base, hbase⟩ := b.exists_path_eq env
  rw [hbase] at hb
  have hextension : 'c' ∈ fileExtension.toList := by decide
  obtain ⟨q', last', hplace'⟩ :=
    (namesFile_append base hextension (by decide) (by decide)).2 disk' p hb
  -- The names at the end would be one, with two last letters.
  have hname := List.singleton_inj.1 (List.append_inj' (hplace.symm.trans hplace') rfl).2
  have hlast := congrArg (fun name : String => name.toList.getLast?) hname
  simp only [String.toList_append, List.getLast?_append, hend] at hlast
  exact hne (Option.some.inj hlast)

end Document

/-! ## Files that keep apart -/

/-- On a disk the files of a list keep apart: no link stands at their paths or beside them, no two
have one place, and the directory of the files is not the temporary file of one. -/
structure Apart (env : Environment) (ds : List Document) (disk : Disk) : Prop where
  files : ∀ d ∈ ds, ∀ p target, disk.entry? (d.path env) = some p →
    disk.node? p ≠ some (.link target)
  aside : ∀ d ∈ ds, ∀ path, d.Aside env path → ∀ p target, disk.entry? path = some p →
    disk.node? p ≠ some (.link target)
  places : ∀ a ∈ ds, ∀ b ∈ ds, a.name ≠ b.name → ∀ p, disk.entry? (a.path env) = some p →
    disk.entry? (b.path env) ≠ some p
  directory : ∀ d ∈ ds, ∀ p, disk.entry? (temporaryPath (d.path env)) = some p →
    disk.resolve? env.dir ≠ some p

/-- What a disk may come to while the directory of the files is made: where it is there already,
nothing is made, and else some of the directories on the way to it. -/
def Furnishes (env : Environment) (disk disk' : Disk) : Prop :=
  disk' = disk ∨ disk.isThere env.dir = false ∧ disk.Gains (OnWay env.dir) disk'

/-- Files keep apart on a disk, also on what it may come to while their directory is made, and no
path of a file comes to lead to something by that. -/
structure Orderly (env : Environment) (ds : List Document) (disk : Disk) : Prop where
  time : Backup.IsTime disk.now
  apart : ∀ disk', Furnishes env disk disk' → Apart env ds disk'
  there : ∀ disk', Furnishes env disk disk' → ∀ d ∈ ds,
    disk'.isThere (d.path env) = disk.isThere (d.path env)

section

variable {env : Environment} {ds : List Document} {d b : Document} {disk disk' : Disk}

/-- Files keep apart by the ways alone. -/
theorem Apart.of_sameWays (h : Apart env ds disk) (hways : disk.SameWays disk') :
    Apart env ds disk' := by
  have hlinks {p : Place} (hp : ∀ target, disk.node? p ≠ some (.link target)) (target : String) :
      disk'.node? p ≠ some (.link target) :=
    fun hlink => hp target (hways.symm.keepsWays.links p target hlink)
  refine ⟨fun d hd p target hp => ?_, fun d hd path hpath p target hp => ?_,
    fun a ha b hb hne p hp => ?_, fun d hd p hp => ?_⟩
  · rw [hways.entry?_eq (d.namesFile_path env)] at hp
    exact hlinks (fun target => h.files d hd p target hp) target
  · rw [hways.entry?_eq hpath.namesFile] at hp
    exact hlinks (fun target => h.aside d hd path hpath p target hp) target
  · rw [hways.entry?_eq (Document.namesFile_path _ env)] at hp ⊢
    exact h.places a ha b hb hne p hp
  · rw [hways.entry?_eq Document.Aside.temporary.namesFile] at hp
    rw [hways.resolve?_eq]
    exact h.directory d hd p hp

/-- The path of a file leads to the place that it names. -/
theorem Apart.resolve?_eq (h : Apart env ds disk) (hd : d ∈ ds) :
    disk.resolve? (d.path env) = disk.entry? (d.path env) :=
  resolve?_of_no_link (d.namesFile_path env) (h.files d hd)

/-- A file is what it was where neither the ways to it nor its place have changed. -/
theorem Apart.stat?_eq (h : Apart env ds disk) (hd : d ∈ ds) (hways : disk.SameWays disk')
    (hplace : ∀ p, disk.entry? (d.path env) = some p → disk'.node? p = disk.node? p) :
    disk'.stat? (d.path env) = disk.stat? (d.path env) := by
  unfold stat?
  rw [hways.resolve?_eq, h.resolve?_eq hd]
  cases hp : disk.entry? (d.path env) with
  | none => rfl
  | some p => exact hplace p hp

/-- Nothing is lost while the directory of the files is made. -/
theorem Furnishes.grows (h : Furnishes env disk disk') : disk.Grows disk' := by
  rcases h with rfl | ⟨-, hgains⟩
  · exact .refl _
  · exact hgains.grows

/-- The disk that the making ends with is one that it may come to. -/
theorem furnishes_furnished (env : Environment) (disk : Disk) :
    Furnishes env disk (Document.furnished env disk) := by
  cases hthere : disk.isThere env.dir with
  | true =>
    refine .inl ?_
    unfold Document.furnished
    rw [Document.ensureDirectory_of_isThere hthere]
  | false => exact .inr ⟨hthere, Document.gains_ensureDirectory env disk⟩

/-- Files are what they were when the directory is made. -/
theorem Orderly.stat?_eq (h : Orderly env ds disk) (hd : d ∈ ds)
    (hfurnishes : Furnishes env disk disk') :
    disk'.stat? (d.path env) = disk.stat? (d.path env) := by
  cases hn : disk.stat? (d.path env) with
  | some n => exact hfurnishes.grows.stat? hn
  | none =>
    have hthere := h.there disk' hfurnishes d hd
    unfold isThere at hthere
    rw [hn] at hthere
    exact Option.not_isSome_iff_eq_none.1 (by rw [hthere]; exact Bool.false_ne_true)

/-- On a disk without links that has the directory of the files, the files keep apart if their
places do. -/
theorem Orderly.of_no_links (htime : Backup.IsTime disk.now)
    (hthere : disk.isThere env.dir = true) (hlinks : ∀ x ∈ disk.nodes, ∀ target, x.2 ≠ .link target)
    (hplaces : ∀ a ∈ ds, ∀ b ∈ ds, a.name ≠ b.name →
      disk.entry? (a.path env) = none ∨ disk.entry? (b.path env) ≠ disk.entry? (a.path env))
    (hdirectory : ∀ d ∈ ds, disk.resolve? env.dir ≠ disk.entry? (temporaryPath (d.path env))) :
    Orderly env ds disk := by
  have hnone (p : Place) (target : String) : disk.node? p ≠ some (.link target) := by
    intro hp
    unfold node? at hp
    split at hp
    · cases hp
    · obtain ⟨before, after, hnodes, -⟩ := List.lookup_eq_some_iff.1 hp
      exact hlinks (p, .link target) (by rw [hnodes]; simp) target rfl
  have hsame {disk' : Disk} (h : Furnishes env disk disk') : disk' = disk :=
    h.resolve_right fun hmissing => by
      rw [hthere] at hmissing
      cases hmissing.1
  refine ⟨htime, fun disk' h => ?_, fun disk' h d _ => by rw [hsame h]⟩
  rw [hsame h]
  refine ⟨fun _ _ p target _ => hnone p target, fun _ _ _ _ p target _ => hnone p target,
    fun a ha b hb hne p hp => ?_, fun d hd p hp => ?_⟩
  · rcases hplaces a ha b hb hne with hfree | hother
    · rw [hfree] at hp
      cases hp
    · rwa [hp] at hother
  · rw [← hp]
    exact hdirectory d hd

/-! ## Writing a file -/

/-- A file that was missing is made: the disk has it in a free place, and not what stood at the
temporary one, which is another place. -/
theorem Apart.node?_of_installs (h : Apart env ds disk) (hd : d ∈ ds)
    (hmissing : disk.isThere (d.path env) = false) {content : List UInt8} {mode : Nat}
    (hi : disk.Installs (d.path env) (temporaryPath (d.path env)) content mode disk') :
    ∃ p q, disk.entry? (d.path env) = some p ∧ disk.node? p = none ∧ ¬disk'.LeadsOn p ∧
      disk.entry? (temporaryPath (d.path env)) = some q ∧ ¬disk.LeadsOn q ∧ disk'.node? q = none ∧
      ∀ r, r ≠ p → r ≠ q → disk'.node? r = disk.node? r := by
  obtain ⟨p, modified, hp, hfile⟩ := hi.target
  obtain ⟨q, hq, hgone⟩ := hi.place
  -- No link stands at the path, so the target is the file itself.
  have htarget : disk.targetPlace? (d.path env) = disk.entry? (d.path env) := by
    unfold targetPlace?
    split
    · next target hlink =>
      obtain ⟨r, hr, hnode⟩ := Option.bind_eq_some_iff.1 hlink
      exact absurd hnode (h.files d hd r target hr)
    · rfl
  rw [htarget] at hp hgone
  refine ⟨p, q, hp, ?_, ?_, hq, ?_, ?_, fun r hrp hrq => hi.others r ?_ ?_⟩
  · unfold isThere stat? at hmissing
    rw [h.resolve?_eq hd, hp] at hmissing
    exact Option.not_isSome_iff_eq_none.1 (by simpa using hmissing)
  · exact not_leadsOn_of_file hfile
  · rintro (hdirectory | ⟨target, hlink⟩)
    · exact hi.replaced q hq hdirectory
    · exact h.aside d hd _ .temporary q target hq hlink
  · exact hgone.resolve_left (Document.Aside.temporary.entry?_ne hq d disk)
  · rw [htarget, hp]
    exact fun heq => hrp (Option.some.inj heq).symm
  · rw [hq]
    exact fun heq => hrq (Option.some.inj heq).symm

/-- Where a missing file is made in the directory of the files, the others stay what they were, and
files go on keeping apart. -/
theorem Orderly.install (h : Orderly env ds disk) (hd : d ∈ ds)
    (hmissing : disk.isThere (d.path env) = false)
    (hdirectory : (Document.furnished env disk).isThere env.dir = true)
    {content : List UInt8} {mode : Nat}
    (hi : (Document.furnished env disk).Installs (d.path env) (temporaryPath (d.path env)) content
      mode disk') (htime : disk'.now = disk.now) :
    Orderly env ds disk' ∧ ∀ b ∈ ds, b.name ≠ d.name →
      disk'.stat? (b.path env) = disk.stat? (b.path env) := by
  have hfurnishes := furnishes_furnished env disk
  have hapart := h.apart _ hfurnishes
  rw [← h.there _ hfurnishes d hd] at hmissing
  obtain ⟨p, q, hp, hfree, hfile, hq, hstale, hgone, hothers⟩ :=
    hapart.node?_of_installs hd hmissing hi
  generalize Document.furnished env disk = made at *
  have hways : made.SameWays disk' := by
    intro r
    by_cases hrp : r = p
    · exact .inr ⟨hrp ▸ not_leadsOn_of_free hfree, hrp ▸ hfile⟩
    by_cases hrq : r = q
    · exact .inr ⟨hrq ▸ hstale, hrq ▸ not_leadsOn_of_free hgone⟩
    exact .inl (hothers r hrp hrq)
  -- The directory stands at neither place, so nothing more is made for it.
  have hthere : disk'.isThere env.dir = true := by
    obtain ⟨n, hn⟩ := Option.isSome_iff_exists.1 hdirectory
    obtain ⟨r, hr, hnode⟩ := Option.bind_eq_some_iff.1 hn
    have hrp : r ≠ p := by
      rintro rfl
      rw [hfree] at hnode
      cases hnode
    have hrq : r ≠ q := by
      rintro rfl
      exact hapart.directory d hd r hq hr
    unfold isThere stat?
    rw [hways.resolve?_eq, hr, Option.bind_some, hothers r hrp hrq, hnode]
    rfl
  have hsame {later : Disk} (hlater : Furnishes env disk' later) : later = disk' :=
    hlater.resolve_right fun hmissing => by
      rw [hthere] at hmissing
      cases hmissing.1
  refine ⟨⟨htime ▸ h.time, fun later hlater => ?_, fun later hlater b _ => ?_⟩, fun b hb hne => ?_⟩
  · rw [hsame hlater]
    exact hapart.of_sameWays hways
  · rw [hsame hlater]
  · rw [hapart.stat?_eq hb hways fun r hr => hothers r ?_ ?_, h.stat?_eq hb hfurnishes]
    · rintro rfl
      exact hapart.places b hb d hd hne r hr hp
    · rintro rfl
      exact Document.Aside.temporary.entry?_ne hq b made hr

/-! ## Copying a file aside -/

/-- Where a file is written in a free place at which no path of a file ever leads, the files stay
what they were and go on keeping apart. -/
theorem Orderly.writeAt (h : Orderly env ds disk) {p : Place} (hp : p ≠ [])
    (hfree : disk.node? p = none)
    (hplace : ∀ (b : Document) (other : Disk), other.entry? (b.path env) ≠ some p)
    (content : List UInt8) (mode : Nat) :
    Orderly env ds (disk.writeAt p content mode) ∧
      ∀ b ∈ ds, (disk.writeAt p content mode).stat? (b.path env) = disk.stat? (b.path env) := by
  have hnode := node?_writeAt (d := disk) hp content mode
  have htime : (disk.writeAt p content mode).now = disk.now := rfl
  generalize disk.writeAt p content mode = made at *
  have hothers : ∀ r, r ≠ p → made.node? r = disk.node? r := fun r hr => by rw [hnode, if_neg hr]
  have hgrows : disk.Grows made := by
    intro r n hn
    rw [hothers r, hn]
    rintro rfl
    rw [hfree] at hn
    cases hn
  -- Whatever is made for the directory could be made without the file.
  have hwithout {later : Disk} (hlater : Furnishes env made later) :
      ∃ before, Furnishes env disk before ∧ before.SameWays later ∧
        ∀ r, r ≠ p → later.node? r = before.node? r := by
    have hfile : ¬later.LeadsOn p :=
      not_leadsOn_of_file (hlater.grows p _ (by rw [hnode, if_pos rfl]))
    rcases hlater with rfl | ⟨hmissing, hgains⟩
    · exact ⟨disk, .inl rfl, .of_others (not_leadsOn_of_free hfree) hfile hothers, hothers⟩
    · have hbefore : disk.isThere env.dir = false := by
        by_contra hthere
        obtain ⟨n, hn⟩ := Option.isSome_iff_exists.1 (Bool.not_eq_false _ ▸ hthere)
        unfold isThere at hmissing
        rw [hgrows.stat? hn] at hmissing
        cases hmissing
      exact ⟨later.drop p, .inr ⟨hbefore, hgains.drop hp hfree hfile hothers⟩,
        (sameWays_drop hp hfile).symm, fun r hr => by rw [node?_drop hp, if_neg hr]⟩
  have hsame {b : Document} (hb : b ∈ ds) {later : Disk} (hlater : Furnishes env made later) :
      later.stat? (b.path env) = disk.stat? (b.path env) := by
    obtain ⟨before, hbefore, hways, hrest⟩ := hwithout hlater
    rw [(h.apart before hbefore).stat?_eq hb hways fun r hr => hrest r ?_, h.stat?_eq hb hbefore]
    rintro rfl
    exact hplace b before hr
  refine ⟨⟨htime ▸ h.time, fun later hlater => ?_, fun later hlater b hb => ?_⟩,
    fun b hb => hsame hb (.inl rfl)⟩
  · obtain ⟨before, hbefore, hways, -⟩ := hwithout hlater
    exact (h.apart before hbefore).of_sameWays hways
  · unfold isThere
    rw [hsame hb hlater, hsame hb (.inl rfl)]

end

end TypedConfig
