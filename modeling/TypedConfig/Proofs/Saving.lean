import TypedConfig.Document.Save
import TypedConfig.Proofs.Accesses
import TypedConfig.Proofs.Confinement

/-!
# A write is all or nothing

A write touches three kinds of places: the one to which the target's path leads, the one of the
temporary file, and those of missing directories. While it goes on, the disk is the old one but for
a file at the temporary place (`Disk.Drafts`). From there it ends in two ways. Either that file goes
over what stands at the target's place (`Disk.Installs`), and then its content is what is read along
the path, or it is dropped, and the disk is the old one again (`Disk.Clears`).
`Document.written_or_unwritten` says what this comes to for the file.
-/

namespace TypedConfig

namespace Disk

variable {d d' : Disk}

/-! ## The temporary file -/

/-- The disk while a file is prepared: at the place that the temporary path names stands a file, and
else the disk is the old one, on which no directory stood there. The path would name the place if it
were free, so nothing that stood there is needed to reach it. -/
structure Drafts (d : Disk) (temporary : String) (p : Place) (d' : Disk) : Prop where
  entry : Disk.entry? (d.drop p) temporary = some p
  change : mayChange p = true
  replaced : d.node? p ≠ some .directory
  file : ∃ content mode modified, d'.node? p = some (.file content mode modified)
  others : ∀ q, q ≠ p → d'.node? q = d.node? q

/-- Why what stands at the place of a temporary path stays there: it is a directory, the path leads
to nothing although something stands there, or the place is one that others own. -/
def Stuck (d : Disk) (temporary : String) (p : Place) : Prop :=
  d.node? p = some .directory ∨ d.isThere temporary = false ∨ mayChange p = false

/-- The second disk is the first one without what stood at the place of a temporary path, unless
that is stuck there. -/
structure Clears (d : Disk) (temporary : String) (d' : Disk) : Prop where
  place : ∀ p, d.entry? temporary = some p →
    d'.node? p = none ∨ d'.node? p = d.node? p ∧ d.Stuck temporary p
  others : ∀ p, d.entry? temporary ≠ some p → d'.node? p = d.node? p

namespace Drafts

variable {temporary : String} {p : Place} {ns : List String} {name : String}

/-- Without what stands at the temporary place the old disk is a part of the new one. -/
theorem grows (h : d.Drafts temporary p d') : (d.drop p).Grows d' := by
  intro q n hn
  rw [node?_drop (ne_top_of_mayChange h.change)] at hn
  split at hn
  · cases hn
  · next hq =>
    rw [h.others q hq]
    exact hn

/-- The temporary path names its place before and while the file is prepared. -/
theorem entry? (h : d.Drafts temporary p d') (hpath : namesOf temporary = ns ++ [name])
    (hname : name ≠ "." ∧ name ≠ "..") :
    d.entry? temporary = some p ∧ d'.entry? temporary = some p :=
  ⟨Grows.entry? (drop_grows (ne_top_of_mayChange h.change) d) hpath hname h.entry,
    h.grows.entry? hpath hname h.entry⟩

/-- A file that is written at the temporary place, on a disk that is the old one but for what stands
there. -/
theorem of_write {made : Disk} (hentry : Disk.entry? (d.drop p) temporary = some p)
    (hchange : mayChange p = true) (hreplaced : d.node? p ≠ some .directory)
    (hothers : ∀ q, q ≠ p → made.node? q = d.node? q) (content : List UInt8) (mode : Nat) :
    d.Drafts temporary p (made.writeAt p content mode) where
  entry := hentry
  change := hchange
  replaced := hreplaced
  file := ⟨content, _, _, by rw [node?_writeAt (ne_top_of_mayChange hchange), if_pos rfl]⟩
  others q hq := by
    rw [node?_writeAt (ne_top_of_mayChange hchange), if_neg hq]
    exact hothers q hq

/-- A file that is made at a temporary path stands in a free place. -/
theorem of_create (hpath : namesOf temporary = ns ++ [name]) (hname : name ≠ "." ∧ name ≠ "..")
    {mode : Nat} (h : d.create temporary mode = some d') : ∃ p, d.Drafts temporary p d' := by
  obtain ⟨p, hp, hfree, hchange, rfl⟩ := create_eq_some_iff.1 h
  have hgrows : d.Grows (d.drop p) := by
    intro q n hn
    rw [node?_drop (ne_top_of_mayChange hchange), if_neg]
    · exact hn
    · rintro rfl
      rw [hfree] at hn
      cases hn
  exact ⟨p, .of_write (hgrows.entry? hpath hname hp) hchange (by rw [hfree]; nofun)
    (fun _ _ => rfl) _ _⟩

/-- A file that is made at a temporary path from which another one was removed stands where that one
did. -/
theorem of_remove_create (hpath : namesOf temporary = ns ++ [name])
    (hname : name ≠ "." ∧ name ≠ "..") {cleared : Disk} {mode : Nat}
    (hremove : d.remove temporary = some cleared) (h : cleared.create temporary mode = some d') :
    ∃ p, d.Drafts temporary p d' := by
  obtain ⟨p, hp, -, hdirectory, hchange, rfl⟩ := remove_eq_some_iff.1 hremove
  have hne := ne_top_of_mayChange hchange
  obtain ⟨q, hq, -, -, rfl⟩ := create_eq_some_iff.1 h
  have hsame := Grows.entry? (drop_grows hne d) hpath hname hq
  obtain rfl := Option.some.inj (hp.symm.trans hsame)
  exact ⟨p, .of_write hq hchange hdirectory (fun r hr => by rw [node?_drop hne, if_neg hr]) _ _⟩

end Drafts

namespace Clears

variable {temporary : String} {p : Place}

/-- The place of a temporary path is cleared on a disk that is the old one but for this place. -/
theorem of_drop {made : Disk} (hentry : d.entry? temporary = some p) (hchange : mayChange p = true)
    (hothers : ∀ q, q ≠ p → made.node? q = d.node? q) : d.Clears temporary (made.drop p) where
  place q hq := by
    obtain rfl := Option.some.inj (hentry.symm.trans hq)
    exact .inl (by rw [node?_drop (ne_top_of_mayChange hchange), if_pos rfl])
  others q hq := by
    have hqp : q ≠ p := fun heq => hq (heq ▸ hentry)
    rw [node?_drop (ne_top_of_mayChange hchange), if_neg hqp]
    exact hothers q hqp

/-- A temporary path that leads to nothing is left as it is. -/
theorem of_not_isThere (h : d.isThere temporary = false) : d.Clears temporary d where
  place _ _ := .inr ⟨rfl, .inr (.inl h)⟩
  others _ _ := rfl

/-- What is not removed from a temporary path is stuck there. -/
theorem of_remove_eq_none (h : d.remove temporary = none) : d.Clears temporary d where
  place p hp := by
    by_cases hfree : d.node? p = none
    · exact .inl hfree
    by_cases hdirectory : d.node? p = some .directory
    · exact .inr ⟨rfl, .inl hdirectory⟩
    have hstuck : mayChange p = false := by
      by_contra hchange
      have hchange := Bool.not_eq_false _ ▸ hchange
      have hgone := remove_eq_some_iff.2 ⟨p, hp, hfree, hdirectory, hchange, rfl⟩
      rw [h] at hgone
      cases hgone
    exact .inr ⟨rfl, .inr (.inr hstuck)⟩
  others _ _ := rfl

/-- A removal clears the place of the temporary path. -/
theorem of_remove (h : d.remove temporary = some d') : d.Clears temporary d' := by
  obtain ⟨p, hp, -, -, hchange, rfl⟩ := remove_eq_some_iff.1 h
  exact of_drop hp hchange fun _ _ => rfl

/-- Nothing is added. -/
theorem grows (h : d.Clears temporary d') : d'.Grows d := by
  intro p n hn
  by_cases hp : d.entry? temporary = some p
  · rcases h.place p hp with hgone | ⟨hsame, -⟩
    · rw [hgone] at hn
      cases hn
    · rw [← hsame, hn]
  · rw [← h.others p hp, hn]

end Clears

end Disk

namespace Document

open Disk

variable {disk disk' : Disk} {temporary : String} {ns : List String} {name : String}

/-- The steps of making the temporary file. -/
theorem prepare_result (disk : Disk) (temporary : String) : (prepare disk temporary).result =
    match if disk.isThere temporary then disk.remove temporary else some disk with
    | some disk =>
      match disk.create temporary 384 with
      | some disk => (disk, .ok ())
      | none => (disk, .error (.unwritable temporary))
    | none => (disk, .error (.unwritable temporary)) := by
  have hmake (disk : Disk) : (makeTemporary disk temporary).result =
      match disk.create temporary 384 with
      | some disk => (disk, .ok ())
      | none => (disk, .error (.unwritable temporary)) := by
    unfold makeTemporary
    cases disk.create temporary 384 <;> rfl
  have hstale : (removeStale disk temporary).result =
      if disk.isThere temporary then disk.remove temporary else some disk := by
    unfold removeStale
    split <;> rfl
  unfold prepare
  rw [Traced.result_bind, hstale]
  cases if disk.isThere temporary then disk.remove temporary else some disk with
  | some disk => exact hmake disk
  | none => rfl

/-- The temporary file is made, and the disk is the old one but for it. Or it is not made, and then
what stood at its place is gone or stuck. -/
theorem prepare_spec (hpath : namesOf temporary = ns ++ [name])
    (hname : name ≠ "." ∧ name ≠ "..") {answer : Except Failure Unit} :
    (prepare disk temporary).result = (disk', answer) →
    match answer with
    | .ok () => ∃ p, disk.Drafts temporary p disk'
    | .error _ => disk.Clears temporary disk' := by
  intro h
  rw [prepare_result] at h
  -- What is left of an earlier write goes first. Either step may fail.
  cases hthere : disk.isThere temporary with
  | false =>
    rw [hthere] at h
    simp only [Bool.false_eq_true, if_false] at h
    cases hcreate : disk.create temporary 384 with
    | some made =>
      rw [hcreate] at h
      obtain ⟨rfl, rfl⟩ := Prod.mk.inj h
      exact Drafts.of_create hpath hname hcreate
    | none =>
      rw [hcreate] at h
      obtain ⟨rfl, rfl⟩ := Prod.mk.inj h
      exact .of_not_isThere hthere
  | true =>
    rw [hthere] at h
    simp only [if_true] at h
    cases hremove : disk.remove temporary with
    | none =>
      rw [hremove] at h
      obtain ⟨rfl, rfl⟩ := Prod.mk.inj h
      exact .of_remove_eq_none hremove
    | some cleared =>
      rw [hremove] at h
      dsimp only at h
      cases hcreate : cleared.create temporary 384 with
      | some made =>
        rw [hcreate] at h
        obtain ⟨rfl, rfl⟩ := Prod.mk.inj h
        exact Drafts.of_remove_create hpath hname hremove hcreate
      | none =>
        rw [hcreate] at h
        obtain ⟨rfl, rfl⟩ := Prod.mk.inj h
        exact .of_remove hremove

/-- A temporary file that gets no further is gone. -/
theorem clears_discard (hpath : namesOf temporary = ns ++ [name])
    (hname : name ≠ "." ∧ name ≠ "..") {p : Place} (h : disk.Drafts temporary p disk') :
    disk.Clears temporary (discard disk' temporary) := by
  obtain ⟨hbefore, hnow⟩ := h.entry? hpath hname
  obtain ⟨content, mode, modified, hfile⟩ := h.file
  have hremove : disk'.remove temporary = some (disk'.drop p) :=
    remove_eq_some_iff.2 ⟨p, hnow, by rw [hfile]; nofun, by rw [hfile]; nofun, h.change, rfl⟩
  have hdiscard : discard disk' temporary = disk'.drop p := by
    unfold discard
    rw [hremove]
    rfl
  rw [hdiscard]
  exact .of_drop hbefore h.change h.others

end Document

/-! ## The target -/

namespace Disk

variable {d d' : Disk} {path temporary : String}

/-- The place of the file that a path stands for: where the path leads if its last name is a link
that leads to something, and else the place of this name. -/
def targetPlace? (d : Disk) (path : String) : Option Place :=
  match (d.entry? path).bind d.node? with
  | some (.link _) => if d.isThere path then d.resolve? path else d.entry? path
  | _ => d.entry? path

/-- Two paths that lead to one directory by the same names, and name different files there. -/
structure Beside (path temporary : String) (ns : List String) (last last' : String) : Prop where
  names : namesOf path = ns ++ [last]
  names' : namesOf temporary = ns ++ [last']
  plain : last ≠ "." ∧ last ≠ ".."
  plain' : last' ≠ "." ∧ last' ≠ ".."
  ne : last ≠ last'

/-- The path of a target is the path itself, or that of the place to which it leads. -/
theorem target_cases (d : Disk) (path : String) :
    (d.target path = path ∧ d.targetPlace? path = d.entry? path) ∨
      ∃ p, d.resolve? path = some p ∧ d.target path = pathOf p ∧ d.targetPlace? path = some p := by
  unfold target targetPlace?
  cases (d.entry? path).bind d.node? with
  | none => exact .inl ⟨rfl, rfl⟩
  | some n =>
    cases n with
    | directory => exact .inl ⟨rfl, rfl⟩
    | file content mode modified => exact .inl ⟨rfl, rfl⟩
    | link target =>
      unfold isThere stat?
      cases hp : d.resolve? path with
      | none => exact .inl ⟨rfl, rfl⟩
      | some p =>
        simp only [Option.bind_some]
        by_cases hthere : (d.node? p).isSome
        · rw [if_pos hthere, if_pos hthere]
          exact .inr ⟨p, rfl, rfl, rfl⟩
        · rw [if_neg hthere, if_neg hthere]
          exact .inl ⟨rfl, rfl⟩

/-- Where a path leads to something, the place of its target is where it leads. -/
theorem targetPlace?_of_isThere {ns : List String} {name : String}
    (hpath : namesOf path = ns ++ [name]) (hname : name ≠ "." ∧ name ≠ "..")
    (h : d.isThere path = true) : d.targetPlace? path = d.resolve? path := by
  obtain ⟨n, hstat⟩ := Option.isSome_iff_exists.1 h
  obtain ⟨p, hp, hnode⟩ := Option.bind_eq_some_iff.1 hstat
  obtain ⟨hvalid, hleads⟩ := resolve?_eq_some_iff.1 hp
  rw [hpath] at hleads
  obtain ⟨q, hq, hinside, -⟩ := hleads.exists_entry hname (Option.isSome_iff_exists.2 ⟨n, hnode⟩)
  obtain ⟨hdirectory, hsize, -⟩ := inside_eq_ok_iff.1 hinside
  have hentry : d.entry? path = some (q ++ [name]) :=
    (entry?_eq_some_iff hpath hname).2 ⟨hvalid, q, hq, hdirectory, hsize, rfl⟩
  unfold targetPlace?
  rw [hentry, Option.bind_some]
  split
  · exact if_pos h
  · next hother =>
    -- The way ends at its last name, where no link stands.
    have hend := hq.concat hname hinside hother
    rw [hp, hend.unique hleads]

/-- While the temporary file is prepared, the path of the target names the place that it did, if it
names anything. -/
theorem Drafts.targetPlace? {ns : List String} {last last' : String} {p q : Place}
    (h : d.Drafts temporary p d') (hbeside : Beside path temporary ns last last')
    (hq : d'.entry? (d.target path) = some q) : d.targetPlace? path = some q := by
  rcases d.target_cases path with ⟨htarget, hplace⟩ | ⟨r, hr, htarget, hplace⟩
  · rw [htarget] at hq
    rw [hplace]
    -- Both names stand in the directory to which the names before lead.
    obtain ⟨hvalid, r, hleads, hdirectory, hsize, rfl⟩ :=
      (entry?_eq_some_iff hbeside.names hbeside.plain).1 hq
    obtain ⟨hbefore, hnow⟩ := h.entry? hbeside.names' hbeside.plain'
    obtain ⟨-, a, ha, hadirectory, -, hp⟩ :=
      (entry?_eq_some_iff hbeside.names' hbeside.plain').1 hbefore
    obtain ⟨-, b, hb, -, -, hp'⟩ := (entry?_eq_some_iff hbeside.names' hbeside.plain').1 hnow
    have hab : a = b := (List.append_inj' (hp.symm.trans hp') rfl).1
    obtain rfl := hb.unique hleads
    rw [hab] at ha hadirectory
    exact (entry?_eq_some_iff hbeside.names hbeside.plain).2
      ⟨hvalid, b, ha, hadirectory, hsize, rfl⟩
  · rw [htarget] at hq
    rw [hplace]
    obtain ⟨-, hleads⟩ := resolve?_eq_some_iff.1 hr
    have hreached := hleads.reached fun n hn => isPart_of_mem_namesOf hn
    -- Above the place stand the directories that stood there, none of which was replaced.
    refine congrArg some (eq_of_entry?_pathOf hreached.names (fun a ha hne => ?_) hq).symm
    have hdirectory := hreached.above a ha hne
    have hap : a ≠ p := by
      rintro rfl
      exact h.replaced hdirectory
    rw [h.others a hap, hdirectory]
    exact fun _ => nofun

/-- The second disk is the first one with a file at the target's place, and with nothing at the
temporary one. -/
structure Replaces (d : Disk) (path temporary : String) (content : List UInt8) (mode : Nat)
    (d' : Disk) : Prop where
  target : ∃ p modified, d.targetPlace? path = some p ∧
    d'.node? p = some (.file content mode modified)
  place : ∃ p, d.entry? temporary = some p ∧ d'.node? p = none
  others : ∀ p, d.targetPlace? path ≠ some p → d.entry? temporary ≠ some p →
    d'.node? p = d.node? p

/-- The second disk is the first one with a file at the target's place, where it came from the
temporary one: no directory stood there before, and nothing stands there afterwards, unless the two
places are one. -/
structure Installs (d : Disk) (path temporary : String) (content : List UInt8) (mode : Nat)
    (d' : Disk) : Prop where
  target : ∃ p modified, d.targetPlace? path = some p ∧
    d'.node? p = some (.file content mode modified)
  place : ∃ p, d.entry? temporary = some p ∧ (d.targetPlace? path = some p ∨ d'.node? p = none)
  replaced : ∀ p, d.entry? temporary = some p → d.node? p ≠ some .directory
  others : ∀ p, d.targetPlace? path ≠ some p → d.entry? temporary ≠ some p →
    d'.node? p = d.node? p

/-- What is installed replaces the target if the temporary place is another one. -/
theorem Installs.replaces {content : List UInt8} {mode : Nat}
    (h : d.Installs path temporary content mode d')
    (hapart : ∀ p, d.targetPlace? path = some p → d.entry? temporary ≠ some p) :
    d.Replaces path temporary content mode d' where
  target := h.target
  place := by
    obtain ⟨p, hp, htarget | hgone⟩ := h.place
    · exact absurd hp (hapart p htarget)
    · exact ⟨p, hp, hgone⟩
  others := h.others

/-- What is read along the path of an installed file is its content. -/
theorem Installs.eq_of_read? {content found : List UInt8} {mode : Nat} {ns : List String}
    {name : String} (h : d.Installs path temporary content mode d')
    (hpath : namesOf path = ns ++ [name]) (hname : name ≠ "." ∧ name ≠ "..")
    (hread : d'.read? path = some found) : found = content := by
  obtain ⟨_, _, hstat, -⟩ := read?_eq_some_iff.1 hread
  obtain ⟨r, hr, hnode⟩ := Option.bind_eq_some_iff.1 hstat
  obtain ⟨hvalid, hleads⟩ := resolve?_eq_some_iff.1 hr
  obtain ⟨q, modified, hq, hfile⟩ := h.target
  obtain ⟨p, hp, hgone⟩ := h.place
  by_cases hrq : r = q
  · rw [hrq, hfile] at hnode
    injection hnode with hnode
    injection hnode with hcontent
    exact hcontent.symm
  -- Elsewhere the old disk has all that the new one has, so the path led to a file before. But then
  -- that is the one that was replaced.
  have hold (s : Place) {n : Node} (hn : d'.node? s = some n) (hs : s ≠ q) :
      d.node? s = some n := by
    rw [← h.others s (fun htarget => hs (Option.some.inj (htarget.symm.trans hq))) ?_, hn]
    intro htemporary
    obtain rfl := Option.some.inj (hp.symm.trans htemporary)
    rcases hgone with htarget | hgone
    · exact hs (Option.some.inj (htarget.symm.trans hq))
    · rw [hgone] at hn
      cases hn
  have hways : d'.KeepsWays d := by
    constructor
    · intro s hs
      refine hold s hs ?_
      rintro rfl
      rw [hfile] at hs
      cases hs
    · intro s target hs
      refine hold s hs ?_
      rintro rfl
      rw [hfile] at hs
      cases hs
  have hsame := hold r hnode hrq
  have hresolve : d.resolve? path = some r := by
    refine resolve?_eq_some_iff.2 ⟨hvalid, hways.leads hleads fun _ => ?_⟩
    rw [hsame]
    exact fun _ => nofun
  have hthere : d.isThere path = true := by
    unfold isThere stat?
    rw [hresolve, Option.bind_some, hsame]
    rfl
  have hplace := targetPlace?_of_isThere hpath hname hthere
  rw [hq, hresolve] at hplace
  exact absurd (Option.some.inj hplace).symm hrq

variable {ns : List String} {last last' : String} {p : Place}

/-- The temporary file is filled at its place. -/
theorem Drafts.fill (h : d.Drafts temporary p d') (hnames : namesOf temporary = ns ++ [last'])
    (hplain : last' ≠ "." ∧ last' ≠ "..") {content : List UInt8} {mode : Nat} {filled : Disk}
    (hfill : d'.fill temporary content mode = some filled) :
    d.Drafts temporary p filled ∧
      ∃ modified, filled.node? p = some (.file content (mode % modeCount) modified) := by
  obtain ⟨q, _, _, _, hq, -, -, rfl⟩ := exists_of_fill hfill
  obtain rfl := Option.some.inj ((h.entry? hnames hplain).2.symm.trans hq)
  refine ⟨.of_write h.entry h.change h.replaced h.others content mode, .tick (d'.ticks + 1), ?_⟩
  rw [node?_writeAt (ne_top_of_mayChange h.change), if_pos rfl]

/-- The temporary file leaves its place and goes over what stands at the target's. -/
theorem Drafts.rename (h : d.Drafts temporary p d') (hbeside : Beside path temporary ns last last')
    {content : List UInt8} {mode : Nat} {modified : Moment}
    (hfile : d'.node? p = some (.file content mode modified)) {renamed : Disk}
    (hrename : d'.rename temporary (d.target path) = some renamed) :
    d.Installs path temporary content mode renamed := by
  obtain ⟨a, n, q, ha, hn, hq, -, -, hchange, hmoved⟩ := exists_of_rename hrename
  obtain ⟨hbefore, hnow⟩ := h.entry? hbeside.names' hbeside.plain'
  obtain rfl := Option.some.inj (hnow.symm.trans ha)
  obtain rfl := Option.some.inj (hn.symm.trans hfile)
  have htarget := h.targetPlace? hbeside hq
  -- What stands where, as both the draft and the rename left it.
  have hnode (r : Place) : renamed.node? r =
      if r = q then some (.file content mode modified) else if r = p then none else d.node? r := by
    by_cases hpq : p = q
    · -- Then it is where it belongs.
      rw [hmoved, if_pos hpq, ← hpq]
      by_cases hrp : r = p
      · rw [if_pos hrp, hrp, hfile]
      · rw [if_neg hrp, if_neg hrp, h.others r hrp]
    · rw [hmoved, if_neg hpq, node?_put (ne_top_of_mayChange hchange),
        node?_drop (ne_top_of_mayChange h.change)]
      by_cases hrp : r = p
      · rw [if_pos hrp, if_pos hrp]
      · rw [if_neg hrp, if_neg hrp, h.others r hrp]
  refine ⟨⟨q, modified, htarget, by rw [hnode, if_pos rfl]⟩, ⟨p, hbefore, ?_⟩, fun r hr => ?_,
    fun r hr hr' => ?_⟩
  · by_cases hpq : p = q
    · exact .inl (hpq ▸ htarget)
    · exact .inr (by rw [hnode, if_neg hpq, if_pos rfl])
  · obtain rfl := Option.some.inj (hbefore.symm.trans hr)
    exact h.replaced
  · have hrq : r ≠ q := by
      rintro rfl
      exact hr htarget
    have hrp : r ≠ p := by
      rintro rfl
      exact hr' hbefore
    rw [hnode, if_neg hrq, if_neg hrp]

end Disk

namespace Document

open Disk

variable {disk disk' : Disk} {path temporary : String} {ns : List String} {last last' : String}

/-- The temporary file is filled and goes over the target, or it is gone. -/
theorem complete_spec (hbeside : Beside path temporary ns last last') {p : Place} {made : Disk}
    (hmade : disk.Drafts temporary p made) (d : Document) (settings : Settings) (defaults : Bool)
    {answer : Except Failure Unit} :
    (d.complete settings made temporary (disk.target path) defaults).result = (disk', answer) →
    match answer with
    | .ok () => ∃ text, (d.draft settings defaults).result = .ok text ∧
        disk.Installs path temporary (Utf8.encode text.toList) (settings.mode % modeCount) disk'
    | .error _ => disk.Clears temporary disk' := by
  intro h
  -- Whichever step fails, the temporary file is dropped where it stands.
  have hdiscard {made : Disk} (hmade : disk.Drafts temporary p made) :=
    clears_discard hbeside.names' hbeside.plain' hmade
  unfold complete at h
  rw [Traced.result_bind] at h
  cases hdraft : (d.draft settings defaults).result with
  | error failure =>
    rw [hdraft] at h
    obtain ⟨rfl, rfl⟩ := Prod.mk.inj h
    exact hdiscard hmade
  | ok text =>
    rw [hdraft] at h
    dsimp only at h
    cases hfill : made.fill temporary (Utf8.encode text.toList) settings.mode with
    | none =>
      rw [hfill] at h
      obtain ⟨rfl, rfl⟩ := Prod.mk.inj h
      exact hdiscard hmade
    | some filled =>
      rw [hfill] at h
      dsimp only at h
      obtain ⟨hfilled, modified, hfile⟩ := hmade.fill hbeside.names' hbeside.plain' hfill
      cases hrename : filled.rename temporary (disk.target path) with
      | none =>
        rw [hrename] at h
        obtain ⟨rfl, rfl⟩ := Prod.mk.inj h
        exact hdiscard hfilled
      | some renamed =>
        rw [hrename] at h
        obtain ⟨rfl, rfl⟩ := Prod.mk.inj h
        exact ⟨text, rfl, hfilled.rename hbeside hfile hrename⟩

/-- The steps between the directory and the stamp. -/
theorem replaceTarget_spec (hbeside : Beside path temporary ns last last') (d : Document)
    (settings : Settings) (defaults : Bool) {answer : Except Failure Unit} :
    (d.replaceTarget settings disk temporary (disk.target path) defaults).result =
      (disk', answer) →
    match answer with
    | .ok () => ∃ text, (d.draft settings defaults).result = .ok text ∧
        disk.Installs path temporary (Utf8.encode text.toList) (settings.mode % modeCount) disk'
    | .error _ => disk.Clears temporary disk' := by
  intro h
  unfold replaceTarget at h
  rw [Traced.result_bind] at h
  generalize hprepare : (prepare disk temporary).result = prepared at h
  obtain ⟨made, prepared⟩ := prepared
  have hmade := prepare_spec hbeside.names' hbeside.plain' hprepare
  cases prepared with
  | error failure =>
    obtain ⟨rfl, rfl⟩ := Prod.mk.inj h
    exact hmade
  | ok _ =>
    obtain ⟨p, hmade⟩ := hmade
    exact complete_spec hbeside hmade d settings defaults h

/-- The path of a file ends in the extension, however the directory and the name are joined. -/
theorem exists_path_eq (d : Document) (env : Environment) :
    ∃ base : String, d.path env = base ++ fileExtension := by
  unfold path join fileName
  split
  · exact ⟨d.name, rfl⟩
  · split
    · exact ⟨env.dir ++ d.name, (String.append_assoc ..).symm⟩
    · exact ⟨env.dir ++ "/" ++ d.name, (String.append_assoc ..).symm⟩

/-- The path of a file and its temporary path differ in the last name alone. -/
theorem exists_beside (d : Document) (env : Environment) :
    ∃ ns last last', Beside (d.path env) (temporaryPath (d.path env)) ns last last' := by
  obtain ⟨base, hbase⟩ := d.exists_path_eq env
  obtain ⟨ns, last, hnames⟩ := exists_namesOf_append base
  have htemporary : temporaryPath (d.path env) = base ++ (fileExtension ++ temporaryExtension) := by
    rw [temporaryPath, hbase, String.append_assoc]
  have hplain (suffix : String) (h : 'c' ∈ suffix.toList) :
      last ++ suffix ≠ "." ∧ last ++ suffix ≠ ".." := append_ne_dots last h (by decide)
  refine ⟨ns, last ++ fileExtension, last ++ (fileExtension ++ temporaryExtension), ?_, ?_,
    hplain _ (by decide), hplain _ (by decide), ?_⟩
  · rw [hbase]
    exact hnames _ (by decide) (by decide)
  · rw [htemporary]
    exact hnames _ (by decide) (by decide)
  · intro heq
    have hlists := congrArg String.toList heq
    simp only [String.toList_append] at hlists
    exact absurd (List.append_cancel_left hlists) (by decide)

/-- The directory of the files is there or made, with those on the way to it. -/
theorem gains_ensureDirectory (env : Environment) (disk : Disk) :
    disk.Gains (OnWay env.dir) (ensureDirectory env disk).result.1 := by
  have hmade := gains_makeDirectories disk env.dir
  unfold ensureDirectory
  split
  · exact .refl disk
  · generalize disk.makeDirectories env.dir = made at hmade
    obtain ⟨made, answer⟩ := made
    cases answer with
    | false => exact hmade
    | true => exact hmade

/-- The disk on which a file is written: the directory of the files was made, as far as it went. -/
def furnished (env : Environment) (disk : Disk) : Disk :=
  (ensureDirectory env disk).result.1

/-- A directory that is there is not made. -/
theorem ensureDirectory_of_isThere {env : Environment} (h : disk.isThere env.dir = true) :
    (ensureDirectory env disk).result = (disk, .ok ()) := by
  unfold ensureDirectory
  rw [if_pos h]
  rfl

/-- A link that leads to the target stays where it is. -/
theorem link_of_replaces (hbeside : Beside path temporary ns last last') {content : List UInt8}
    {mode : Nat} (h : disk.Replaces path temporary content mode disk') {p : Place} {target : String}
    (hp : disk.entry? path = some p) (hlink : disk.node? p = some (.link target))
    (hthere : disk.isThere path = true) : disk'.node? p = some (.link target) := by
  have hplace := targetPlace?_of_isThere hbeside.names hbeside.plain hthere
  rw [h.others p ?_ ?_, hlink]
  · -- No link stands where a way ends.
    rw [hplace]
    intro hresolve
    obtain ⟨-, hleads⟩ := resolve?_eq_some_iff.1 hresolve
    exact (hleads.reached fun n hn => isPart_of_mem_namesOf hn).end_ne_link target hlink
  · intro htemporary
    obtain ⟨-, a, -, -, -, ha⟩ := (entry?_eq_some_iff hbeside.names hbeside.plain).1 hp
    obtain ⟨-, b, -, -, -, hb⟩ := (entry?_eq_some_iff hbeside.names' hbeside.plain').1 htemporary
    have hlast := (List.append_inj' (ha.symm.trans hb) rfl).2
    exact hbeside.ne (List.singleton_inj.1 hlast)

/-! ## The local time -/

/-- Making the directory of the files leaves the clock. -/
theorem now_ensureDirectory (env : Environment) (disk : Disk) :
    (ensureDirectory env disk).result.1.now = disk.now := by
  have hmade := now_makeDirectories disk env.dir
  unfold ensureDirectory
  split
  · rfl
  · generalize disk.makeDirectories env.dir = made at hmade
    obtain ⟨made, answer⟩ := made
    cases answer <;> exact hmade

/-- Preparing the temporary file leaves the clock. -/
theorem now_prepare (disk : Disk) (temporary : String) :
    (prepare disk temporary).result.1.now = disk.now := by
  have hcreate (disk : Disk) : (match disk.create temporary 384 with
      | some disk => (disk, (.ok () : Except Failure Unit))
      | none => (disk, .error (.unwritable temporary))).1.now = disk.now := by
    cases h : disk.create temporary 384 with
    | none => rfl
    | some made => exact now_of_create h
  rw [prepare_result]
  split
  · next cleared hcleared =>
    refine (hcreate cleared).trans ?_
    split at hcleared
    · exact now_of_remove hcleared
    · rw [Option.some.inj hcleared]
  · rfl

/-- Removing the temporary file leaves the clock. -/
theorem now_discard (disk : Disk) (temporary : String) :
    (discard disk temporary).now = disk.now := by
  unfold discard
  cases h : disk.remove temporary with
  | none => rfl
  | some cleared => exact now_of_remove h

/-- Filling the temporary file and moving it over the target leaves the clock. -/
theorem now_complete (d : Document) (settings : Settings) (disk : Disk) (temporary target : String)
    (defaults : Bool) :
    (d.complete settings disk temporary target defaults).result.1.now = disk.now := by
  unfold complete
  rw [Traced.result_bind]
  cases (d.draft settings defaults).result with
  | error failure => exact now_discard disk temporary
  | ok text =>
    dsimp only
    cases hfill : disk.fill temporary (Utf8.encode text.toList) settings.mode with
    | none => exact now_discard disk temporary
    | some filled =>
      rw [← now_of_fill hfill]
      dsimp only
      cases hrename : filled.rename temporary target with
      | none => exact now_discard filled temporary
      | some renamed => exact now_of_rename hrename

/-- Writing a file leaves the clock. -/
theorem now_save (d : Document) (env : Environment) (disk : Disk) (defaults : Bool) :
    (d.save env disk defaults).result.2.1.now = disk.now := by
  have hmade := now_ensureDirectory env disk
  unfold save
  rw [Traced.result_bind]
  generalize (ensureDirectory env disk).result = made at hmade
  obtain ⟨made, answer⟩ := made
  cases answer with
  | error failure => exact hmade
  | ok _ =>
    rw [← hmade]
    have hreplaced : (d.replaceTarget env.settings made (temporaryPath (d.path env))
        (made.target (d.path env)) defaults).result.1.now = made.now := by
      have hprepared := now_prepare made (temporaryPath (d.path env))
      unfold replaceTarget
      rw [Traced.result_bind]
      generalize (prepare made (temporaryPath (d.path env))).result = prepared at hprepared
      obtain ⟨prepared, answer⟩ := prepared
      cases answer with
      | error failure => exact hprepared
      | ok _ => exact (now_complete ..).trans hprepared
    simp only [Traced.result_bind]
    generalize (d.replaceTarget env.settings made (temporaryPath (d.path env))
      (made.target (d.path env)) defaults).result = replaced at hreplaced
    obtain ⟨replaced, answer⟩ := replaced
    cases answer <;> exact hreplaced

/-! ## The write -/

/-- The steps of a write. The stamp is noted after all that can fail. -/
theorem save_spec {d : Document} {env : Environment} {disk : Disk} (defaults : Bool)
    {d' : Document} {disk' : Disk} {answer : Except Failure Unit} :
    (d.save env disk defaults).result = (d', disk', answer) →
    match answer with
    | .ok () => (∃ text, (d.draft env.settings defaults).result = .ok text ∧
        (furnished env disk).Installs (d.path env) (temporaryPath (d.path env))
          (Utf8.encode text.toList) (env.settings.mode % modeCount) disk') ∧
        d' = { d with stamp := disk'.stamp? (d.path env) }
    | .error failure => ((furnished env disk).Clears (temporaryPath (d.path env)) disk' ∨
        (ensureDirectory env disk).result.2 = .error failure ∧ disk' = furnished env disk) ∧
        d' = d := by
  intro h
  obtain ⟨ns, last, last', hbeside⟩ := d.exists_beside env
  unfold save at h
  rw [Traced.result_bind] at h
  cases hmade : (ensureDirectory env disk).result.2 with
  | error failure =>
    -- Without the directory nothing else is tried.
    have hresult : (ensureDirectory env disk).result = (furnished env disk, .error failure) :=
      Prod.ext rfl hmade
    rw [hresult] at h
    obtain ⟨rfl, hrest⟩ := Prod.mk.inj h
    obtain ⟨rfl, rfl⟩ := Prod.mk.inj hrest
    exact ⟨.inr ⟨rfl, rfl⟩, rfl⟩
  | ok _ =>
    have hresult : (ensureDirectory env disk).result = (furnished env disk, .ok ()) :=
      Prod.ext rfl hmade
    rw [hresult] at h
    simp only [Traced.result_bind] at h
    generalize hreplace : (d.replaceTarget env.settings (furnished env disk)
      (temporaryPath (d.path env)) ((furnished env disk).target (d.path env)) defaults).result =
        replaced at h
    obtain ⟨after, outcome⟩ := replaced
    have hspec := replaceTarget_spec hbeside d env.settings defaults hreplace
    cases outcome with
    | error failure =>
      obtain ⟨rfl, hrest⟩ := Prod.mk.inj h
      obtain ⟨rfl, rfl⟩ := Prod.mk.inj hrest
      exact ⟨.inl hspec, rfl⟩
    | ok _ =>
      obtain ⟨rfl, hrest⟩ := Prod.mk.inj h
      obtain ⟨rfl, rfl⟩ := Prod.mk.inj hrest
      exact ⟨hspec, rfl⟩

/-- A write that succeeds has the directory of the files. -/
theorem isThere_dir_of_save {d d' : Document} {env : Environment} {disk disk' : Disk}
    {defaults : Bool} (h : (d.save env disk defaults).result = (d', disk', .ok ())) :
    (furnished env disk).isThere env.dir = true := by
  have hanswer : (ensureDirectory env disk).result.2 = .ok () := by
    cases hmade : (ensureDirectory env disk).result with
    | mk made answer =>
      cases answer with
      | ok _ => rfl
      | error failure =>
        unfold save at h
        rw [Traced.result_bind, hmade] at h
        cases h
  unfold furnished ensureDirectory at *
  split at hanswer
  · next hthere =>
    rw [if_pos hthere]
    exact hthere
  · next hthere =>
    rw [if_neg hthere]
    cases hmade : disk.makeDirectories env.dir with
    | mk made answer =>
      rw [hmade] at hanswer
      cases answer with
      | false => cases hanswer
      | true => exact isThere_of_makeDirectories hmade

/-- What a write leaves behind that succeeds, on a disk with its directory: the target holds exactly
the text of the file, a link that leads there is what it was, nothing stands at the temporary place,
and the file notes the stamp. -/
structure Written (d : Document) (env : Environment) (defaults : Bool) (disk : Disk) (d' : Document)
    (disk' : Disk) : Prop where
  replaces : ∃ text, (d.draft env.settings defaults).result = .ok text ∧
    disk.Replaces (d.path env) (temporaryPath (d.path env)) (Utf8.encode text.toList)
      (env.settings.mode % modeCount) disk'
  link : ∀ p target, disk.entry? (d.path env) = some p → disk.node? p = some (.link target) →
    disk.isThere (d.path env) = true → disk'.node? p = some (.link target)
  document : d' = { d with stamp := disk'.stamp? (d.path env) }

/-- What a write leaves behind that fails: the target is what it was, what stood at the temporary
place is gone unless it is stuck, and the file is what it was. Where the directory cannot be made,
there is nothing else that changes. -/
structure Unwritten (d : Document) (env : Environment) (disk : Disk) (failure : Failure)
    (d' : Document) (disk' : Disk) : Prop where
  target : ∀ p, (furnished env disk).targetPlace? (d.path env) = some p →
    disk'.node? p = (furnished env disk).node? p
  clears : (furnished env disk).Clears (temporaryPath (d.path env)) disk' ∨
    (ensureDirectory env disk).result.2 = .error failure ∧ disk' = furnished env disk
  document : d' = d

/-- A write is all or nothing on every disk on which the place of the target is not that of the
temporary file. Whether it succeeds or fails, all that it does elsewhere is that it makes missing
directories on the way to the files. -/
theorem written_or_unwritten {d : Document} {env : Environment} {disk : Disk}
    (hapart : ∀ p, (furnished env disk).targetPlace? (d.path env) = some p →
      Disk.entry? (furnished env disk) (temporaryPath (d.path env)) ≠ some p)
    (defaults : Bool) {d' : Document} {disk' : Disk} {answer : Except Failure Unit} :
    (d.save env disk defaults).result = (d', disk', answer) →
    disk.Gains (OnWay env.dir) (furnished env disk) ∧
      match answer with
      | .ok () => d.Written env defaults (furnished env disk) d' disk'
      | .error failure => d.Unwritten env disk failure d' disk' := by
  intro h
  refine ⟨gains_ensureDirectory env disk, ?_⟩
  obtain ⟨ns, last, last', hbeside⟩ := d.exists_beside env
  have hspec := save_spec defaults h
  cases answer with
  | error failure =>
    obtain ⟨hclears, hdocument⟩ := hspec
    refine ⟨fun p hp => ?_, hclears, hdocument⟩
    rcases hclears with hclears | ⟨-, rfl⟩
    · exact hclears.others p (hapart p hp)
    · rfl
  | ok _ =>
    obtain ⟨⟨text, hdraft, hinstalls⟩, hdocument⟩ := hspec
    have hreplaces := hinstalls.replaces hapart
    exact ⟨⟨text, hdraft, hreplaces⟩,
      fun p target hp hlink hthere => link_of_replaces hbeside hreplaces hp hlink hthere, hdocument⟩

end Document

/-- A disk on which the path of a file is a link to another directory, and a temporary file was left
over. -/
def linkedDisk (isFull : Bool) : Disk where
  nodes := [(["etc"], .directory), (["etc", "app.conf"], .link "/data/app.conf"),
    (["etc", "app.conf.weechattmp"], .file [35] 384 (.second 0)), (["data"], .directory),
    (["data", "app.conf"], .file [35, 10] 384 (.second 0))]
  isFull := isFull

/-- The directory is there. -/
theorem ensureDirectory_linkedDisk (isFull : Bool) :
    (Document.ensureDirectory { dir := "/etc" } (linkedDisk isFull)).result =
      (linkedDisk isFull, .ok ()) :=
  Document.ensureDirectory_of_isThere (by cases isFull <;> decide +kernel)

/-- So the disk stays as it is. -/
theorem furnished_linkedDisk (isFull : Bool) :
    Document.furnished { dir := "/etc" } (linkedDisk isFull) = linkedDisk isFull :=
  congrArg Prod.fst (ensureDirectory_linkedDisk isFull)

/-- The path leads through the link. -/
theorem targetPlace?_linkedDisk (isFull : Bool) :
    (linkedDisk isFull).targetPlace? (noted.path { dir := "/etc" }) =
      some ["data", "app.conf"] := by
  cases isFull <;> decide +kernel

/-- The temporary file is beside the link, not beside what it leads to. -/
theorem entry?_linkedDisk (isFull : Bool) :
    Disk.entry? (linkedDisk isFull) (temporaryPath (noted.path { dir := "/etc" })) =
      some ["etc", "app.conf.weechattmp"] := by
  cases isFull <;> decide +kernel

/-- On that disk the file behind the link is replaced. Where there is no room, it stays what it was,
and the temporary file is gone all the same. -/
theorem written_or_unwritten_linkedDisk :
    (∃ text d' disk' modified, (noted.draft {} false).result = .ok text ∧
      (noted.save { dir := "/etc" } (linkedDisk false) false).result = (d', disk', .ok ()) ∧
      disk'.node? ["data", "app.conf"] = some (.file (Utf8.encode text.toList) 384 modified) ∧
      disk'.node? ["etc", "app.conf"] = some (.link "/data/app.conf") ∧
      disk'.node? ["etc", "app.conf.weechattmp"] = none) ∧
    ∃ disk' failure,
      (noted.save { dir := "/etc" } (linkedDisk true) false).result =
        (noted, disk', .error failure) ∧
      disk'.node? ["data", "app.conf"] = some (.file [35, 10] 384 (.second 0)) ∧
      disk'.node? ["etc", "app.conf"] = some (.link "/data/app.conf") ∧
      disk'.node? ["etc", "app.conf.weechattmp"] = none := by
  have hapart (isFull : Bool) : ∀ p, (Document.furnished { dir := "/etc" }
      (linkedDisk isFull)).targetPlace? (noted.path { dir := "/etc" }) = some p →
      Disk.entry? (Document.furnished { dir := "/etc" } (linkedDisk isFull))
        (temporaryPath (noted.path { dir := "/etc" })) ≠ some p := by
    rw [furnished_linkedDisk, targetPlace?_linkedDisk, entry?_linkedDisk]
    rintro _ ⟨⟩
    decide
  constructor
  · have hok : (noted.save { dir := "/etc" } (linkedDisk false) false).result.2.2.isOk := by
      decide +kernel
    generalize hresult : (noted.save { dir := "/etc" } (linkedDisk false) false).result = result
      at hok ⊢
    obtain ⟨d', disk', answer⟩ := result
    cases answer with
    | error failure => cases hok
    | ok _ =>
      obtain ⟨-, ⟨text, hdraft, hreplaces⟩, hlink, -⟩ :=
        Document.written_or_unwritten (hapart false) false hresult
      rw [furnished_linkedDisk] at hreplaces hlink
      obtain ⟨p, modified, hp, hnode⟩ := hreplaces.target
      obtain rfl := Option.some.inj (hp.symm.trans (targetPlace?_linkedDisk false))
      obtain ⟨q, hq, hgone⟩ := hreplaces.place
      obtain rfl := Option.some.inj (hq.symm.trans (entry?_linkedDisk false))
      exact ⟨text, d', disk', modified, hdraft, rfl, hnode,
        hlink _ _ (by decide +kernel) rfl (by decide +kernel), hgone⟩
  · have hfull :
        (noted.save { dir := "/etc" } (linkedDisk true) false).result.2.2.isOk = false := by
      decide +kernel
    generalize hresult : (noted.save { dir := "/etc" } (linkedDisk true) false).result = result
      at hfull ⊢
    obtain ⟨d', disk', answer⟩ := result
    cases answer with
    | ok _ => cases hfull
    | error failure =>
      obtain ⟨-, htarget, hclears, rfl⟩ :=
        Document.written_or_unwritten (hapart true) false hresult
      rw [furnished_linkedDisk, ensureDirectory_linkedDisk] at hclears
      rw [furnished_linkedDisk] at htarget
      rcases hclears with hclears | ⟨hfails, -⟩
      · have hlink := hclears.others ["etc", "app.conf"] (by rw [entry?_linkedDisk]; decide)
        refine ⟨disk', failure, rfl, htarget _ (targetPlace?_linkedDisk true), hlink, ?_⟩
        -- What was left over is a file that the path leads to, so it is not stuck.
        rcases hclears.place _ (entry?_linkedDisk true) with hgone | ⟨-, hstuck⟩
        · exact hgone
        · rcases hstuck with h | h | h <;> exact absurd h (by decide +kernel)
      · cases hfails

end TypedConfig
