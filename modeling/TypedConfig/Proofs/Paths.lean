import TypedConfig.Disk.Access

/-!
# Paths on a disk that grows

A disk grows where whatever stands somewhere goes on standing there (`Disk.Grows`). Paths that lead
to something then lead to the same thing (`Disk.Grows.stat?`), because a walk passes through
directories and links alone: wherever these stay, names lead where they did
(`Disk.KeepsWays.leads`). A path that leads to a free place goes on leading to this place as long as
no link is put there (`Disk.Grows.resolve?`).

The other statement is about the last name on the way to something: it is the name of a node, be
that the end of the way or a link (`Disk.Leads.exists_entry`).
-/

namespace TypedConfig.Disk

/-- Whatever stands somewhere on the first disk stands there on the second one. -/
def Grows (d d' : Disk) : Prop :=
  ∀ p n, d.node? p = some n → d'.node? p = some n

/-- A disk has all that stands on it. -/
theorem Grows.refl (d : Disk) : d.Grows d :=
  fun _ _ h => h

/-- A disk grows by a node in a free place. -/
theorem Grows.put {d : Disk} {p : Place} (hp : p ≠ []) (hfree : d.node? p = none) (n : Node) :
    d.Grows (d.put p n) := by
  intro q m hm
  have hne : q ≠ p := by
    rintro rfl
    rw [hfree] at hm
    cases hm
  rw [node?_put hp, if_neg hne]
  exact hm

/-- What stands on a disk without one of its nodes stands on the disk. -/
theorem drop_grows {p : Place} (hp : p ≠ []) (d : Disk) : (d.drop p).Grows d := by
  intro q n hn
  rw [node?_drop hp] at hn
  split at hn
  · cases hn
  · exact hn

/-! ## Walks -/

/-- A name is looked for in a directory, and found below it. -/
theorem inside_eq_ok_iff {d : Disk} {p q : Place} {name : String} :
    d.inside p name = .ok q ↔
      d.node? p = some .directory ∧ name.utf8ByteSize ≤ nameLimit ∧ q = p ++ [name] := by
  unfold inside
  constructor
  · intro h
    split at h
    · next hnode =>
      split at h
      · next hsize => exact ⟨hnode, hsize, (Except.ok.inj h).symm⟩
      · cases h
    · cases h
    · cases h
  · rintro ⟨hnode, hsize, rfl⟩
    rw [hnode]
    exact if_pos hsize

/-- The first name of a walk is looked for, and the others are from there. -/
theorem walk_cons (d : Disk) (p : Place) (name : String) (ns : List String) :
    d.walk p (name :: ns) = match d.inside p name with
      | .error fault => .lost fault
      | .ok q =>
        if name = "." then d.walk p ns
        else if name = ".." then d.walk p.dropLast ns
        else match d.node? q with
          | some (.link target) => .link target ns
          | _ => d.walk q ns :=
  rfl

/-- A walk that is not lost finds its first name where it starts. -/
theorem inside_of_walk_cons {d : Disk} {p : Place} {name : String} {ns : List String} {w : Walk}
    (hw : d.walk p (name :: ns) = w) (hlost : ∀ fault, w ≠ .lost fault) :
    d.inside p name = .ok (p ++ [name]) := by
  rw [walk_cons] at hw
  cases hinside : d.inside p name with
  | error fault =>
    rw [hinside] at hw
    exact absurd hw.symm (hlost fault)
  | ok q => rw [(inside_eq_ok_iff.1 hinside).2.2]

/-- The directories and links of the first disk stand on the second one. -/
structure KeepsWays (d d' : Disk) : Prop where
  directories : ∀ p, d.node? p = some .directory → d'.node? p = some .directory
  links : ∀ p target, d.node? p = some (.link target) → d'.node? p = some (.link target)

/-- A disk that grows keeps its directories and links. -/
theorem Grows.keepsWays {d d' : Disk} (h : d.Grows d') : d.KeepsWays d' :=
  ⟨fun p => h p _, fun p _ => h p _⟩

/-- A walk that is not lost passes through directories and links alone, so it goes on as it did. At
the place where it arrives anything may stand, but no link may have come there. -/
theorem KeepsWays.walk {d d' : Disk} (h : d.KeepsWays d') {p : Place} {ns : List String} {w : Walk}
    (hw : d.walk p ns = w)
    (hend : ∀ q, w = .arrived q → (∀ target, d.node? q ≠ some (.link target)) →
      ∀ target, d'.node? q ≠ some (.link target))
    (hlost : ∀ fault, w ≠ .lost fault) : d'.walk p ns = w := by
  induction ns generalizing p with
  | nil => exact hw
  | cons name ns ih =>
    rw [walk_cons] at hw ⊢
    cases hinside : d.inside p name with
    | error fault =>
      rw [hinside] at hw
      exact absurd hw.symm (hlost fault)
    | ok q =>
      obtain ⟨hnode, hsize, hq⟩ := inside_eq_ok_iff.1 hinside
      have hinside' : d'.inside p name = .ok q :=
        inside_eq_ok_iff.2 ⟨h.directories p hnode, hsize, hq⟩
      rw [hinside] at hw
      rw [hinside']
      dsimp only at hw ⊢
      split at hw
      · next hdot =>
        rw [if_pos hdot]
        exact ih hw
      · next hdot =>
        rw [if_neg hdot]
        split at hw
        · next hup =>
          rw [if_pos hup]
          exact ih hw
        · next hup =>
          rw [if_neg hup]
          split at hw
          · next target hlink =>
            rw [h.links q target hlink]
            exact hw
          · next hother =>
            have hother' : ∀ target, d'.node? q ≠ some (.link target) := by
              cases ns with
              | nil => exact hend q hw.symm hother
              | cons next ns =>
                -- The walk goes on from there, so a directory stands there.
                have hdirectory := (inside_eq_ok_iff.1 (inside_of_walk_cons hw hlost)).1
                rw [h.directories q hdirectory]
                exact fun _ => nofun
            split
            · next target htarget => exact absurd htarget (hother' target)
            · exact ih hw

/-! ## Ways through links -/

/-- Names lead from the top to a place, through at most so many links. -/
inductive Leads (d : Disk) : Nat → List String → Place → Prop
  /-- No link is met. -/
  | arrived {links : Nat} {ns : List String} {p : Place} (hw : d.walk [] ns = .arrived p) :
      Leads d links ns p
  /-- The way goes on along the path of the first link. -/
  | link {links : Nat} {ns : List String} {target : String} {rest : List String} {p : Place}
      (hw : d.walk [] ns = .link target rest) (h : Leads d links (namesOf target ++ rest) p) :
      Leads d (links + 1) ns p

/-- The walk arrives where the names lead. -/
theorem follow_eq_ok_iff {d : Disk} {links : Nat} {ns : List String} {p : Place} :
    d.follow links ns = .ok p ↔ d.Leads links ns p := by
  constructor
  · -- The induction is on the links that may still be met, which the walk counts down.
    intro h
    induction links generalizing ns with
    | zero =>
      unfold follow at h
      cases hw : d.walk [] ns with
      | arrived q =>
        rw [hw] at h
        obtain rfl := Except.ok.inj h
        exact .arrived hw
      | lost fault =>
        rw [hw] at h
        cases h
      | link target rest =>
        rw [hw] at h
        cases h
    | succ links ih =>
      unfold follow at h
      cases hw : d.walk [] ns with
      | arrived q =>
        rw [hw] at h
        obtain rfl := Except.ok.inj h
        exact .arrived hw
      | lost fault =>
        rw [hw] at h
        cases h
      | link target rest =>
        rw [hw] at h
        exact .link hw (ih h)
  · intro h
    induction h with
    | arrived hw =>
      unfold follow
      rw [hw]
    | link hw _ ih =>
      unfold follow
      rw [hw]
      exact ih

/-- Names lead where they did. -/
theorem KeepsWays.leads {d d' : Disk} (h : d.KeepsWays d') {links : Nat} {ns : List String}
    {p : Place} (hp : d.Leads links ns p)
    (hend : (∀ target, d.node? p ≠ some (.link target)) →
      ∀ target, d'.node? p ≠ some (.link target)) : d'.Leads links ns p := by
  induction hp with
  | arrived hw => exact .arrived (h.walk hw (fun _ hr => Walk.arrived.inj hr ▸ hend) nofun)
  | link hw _ ih => exact .link (h.walk hw nofun nofun) (ih hend)

/-- On a disk that grows names lead where they did, if a free place at the end gets no link. -/
theorem Grows.leads {d d' : Disk} (h : d.Grows d') {links : Nat} {ns : List String} {p : Place}
    (hp : d.Leads links ns p)
    (hend : d.node? p = none → ∀ target, d'.node? p ≠ some (.link target)) :
    d'.Leads links ns p := by
  refine h.keepsWays.leads hp fun hother => ?_
  cases hnode : d.node? p with
  | none => exact hend hnode
  | some n =>
    rw [h p n hnode, ← hnode]
    exact hother

/-! ## Paths -/

/-- What a path resolves to is where its names lead. -/
theorem resolve?_eq_some_iff {d : Disk} {path : String} {p : Place} :
    d.resolve? path = some p ↔ isPath path = true ∧ d.Leads linkLimit (namesOf path) p := by
  rw [← follow_eq_ok_iff]
  unfold resolve?
  cases hpath : isPath path with
  | false => simp
  | true =>
    cases hfollow : d.follow linkLimit (namesOf path) with
    | error fault => simp [Except.toOption]
    | ok q => simp [Except.toOption]

/-- A path resolves to where it did. -/
theorem Grows.resolve? {d d' : Disk} (h : d.Grows d') {path : String} {p : Place}
    (hp : d.resolve? path = some p)
    (hend : d.node? p = none → ∀ target, d'.node? p ≠ some (.link target)) :
    d'.resolve? path = some p := by
  obtain ⟨hpath, hleads⟩ := resolve?_eq_some_iff.1 hp
  exact resolve?_eq_some_iff.2 ⟨hpath, h.leads hleads hend⟩

/-- Ways go on at a place: a directory or a link stands there. -/
def LeadsOn (d : Disk) (p : Place) : Prop :=
  d.node? p = some .directory ∨ ∃ target, d.node? p = some (.link target)

/-- Two disks differ at places alone where ways end. -/
def SameWays (d d' : Disk) : Prop :=
  ∀ p, d'.node? p = d.node? p ∨ ¬d.LeadsOn p ∧ ¬d'.LeadsOn p

/-- No way goes on at a free place. -/
theorem not_leadsOn_of_free {d : Disk} {p : Place} (h : d.node? p = none) : ¬d.LeadsOn p := by
  rintro (hnode | ⟨target, hnode⟩) <;> rw [h] at hnode <;> cases hnode

/-- No way goes on at a place where a file stands. -/
theorem not_leadsOn_of_file {d : Disk} {p : Place} {content : List UInt8} {mode : Nat}
    {modified : Moment} (h : d.node? p = some (.file content mode modified)) : ¬d.LeadsOn p := by
  rintro (hnode | ⟨target, hnode⟩) <;> rw [h] at hnode <;> cases hnode

/-- Ways are the same where one place changes at which none goes on. -/
theorem SameWays.of_others {d d' : Disk} {p : Place} (hp : ¬d.LeadsOn p) (hp' : ¬d'.LeadsOn p)
    (hothers : ∀ q, q ≠ p → d'.node? q = d.node? q) : d.SameWays d' := by
  intro q
  by_cases hq : q = p
  · exact .inr ⟨hq ▸ hp, hq ▸ hp'⟩
  · exact .inl (hothers q hq)

/-- Ways are the same without a node at which none goes on. -/
theorem sameWays_drop {d : Disk} {p : Place} (hp : p ≠ []) (hend : ¬d.LeadsOn p) :
    d.SameWays (d.drop p) :=
  .of_others hend (not_leadsOn_of_free (by rw [node?_drop hp, if_pos rfl]))
    fun q hq => by rw [node?_drop hp, if_neg hq]

/-- The ways of two disks are the same in both directions. -/
theorem SameWays.symm {d d' : Disk} (h : d.SameWays d') : d'.SameWays d :=
  fun p => (h p).imp Eq.symm And.symm

/-- Where ways go on, the disks are the same. -/
theorem SameWays.node?_eq {d d' : Disk} (h : d.SameWays d') {p : Place} (hp : d.LeadsOn p) :
    d'.node? p = d.node? p :=
  (h p).resolve_right fun hends => hends.1 hp

/-- A disk with the same ways keeps its directories and links. -/
theorem SameWays.keepsWays {d d' : Disk} (h : d.SameWays d') : d.KeepsWays d' where
  directories p hp := by rw [h.node?_eq (.inl hp), hp]
  links p target hp := by rw [h.node?_eq (.inr ⟨target, hp⟩), hp]

/-- Paths resolve to where they did. -/
theorem SameWays.resolve?_eq {d d' : Disk} (h : d.SameWays d') (path : String) :
    d'.resolve? path = d.resolve? path := by
  have hkept {d d' : Disk} (h : d.SameWays d') {p : Place} (hp : d.resolve? path = some p) :
      d'.resolve? path = some p := by
    obtain ⟨hpath, hleads⟩ := resolve?_eq_some_iff.1 hp
    refine resolve?_eq_some_iff.2 ⟨hpath, h.keepsWays.leads hleads fun hend target htarget => ?_⟩
    exact hend target (h.symm.keepsWays.links p target htarget)
  exact Option.ext fun p => ⟨hkept h.symm, hkept h⟩

/-- What paths lead to depends on what stands at places alone. -/
theorem stat?_eq_of_node?_eq {d d' : Disk} (h : ∀ p, d'.node? p = d.node? p) (path : String) :
    d'.stat? path = d.stat? path := by
  have hways : d.SameWays d' := fun p => .inl (h p)
  rw [stat?, stat?, hways.resolve?_eq path, show d'.node? = d.node? from funext h]

/-- A path that leads to something leads to the same thing. -/
theorem Grows.stat? {d d' : Disk} (h : d.Grows d') {path : String} {n : Node}
    (hn : d.stat? path = some n) : d'.stat? path = some n := by
  obtain ⟨p, hp, hnode⟩ := Option.bind_eq_some_iff.1 hn
  have hresolve : d'.resolve? path = some p := by
    refine h.resolve? hp fun hfree => ?_
    rw [hfree] at hnode
    cases hnode
  exact Option.bind_eq_some_iff.2 ⟨p, hresolve, h p n hnode⟩

/-- What can be read is the content of a file whose mode lets its owner read it. -/
theorem read?_eq_some_iff {d : Disk} {path : String} {content : List UInt8} :
    d.read? path = some content ↔
      ∃ mode modified,
        d.stat? path = some (.file content mode modified) ∧ isReadable mode = true := by
  unfold read? open?
  constructor
  · intro h
    split at h
    · next bytes mode modified hopen =>
      obtain rfl := Option.some.inj h
      obtain ⟨hstat, hmode⟩ := Option.filter_eq_some_iff.1 hopen
      exact ⟨mode, modified, hstat, hmode⟩
    · cases h
  · rintro ⟨mode, modified, hstat, hmode⟩
    rw [hstat, Option.filter_some, if_pos hmode]

/-- A file that can be read holds what it held. -/
theorem Grows.read? {d d' : Disk} (h : d.Grows d') {path : String} {content : List UInt8}
    (hread : d.read? path = some content) : d'.read? path = some content := by
  obtain ⟨mode, modified, hstat, hreadable⟩ := read?_eq_some_iff.1 hread
  exact read?_eq_some_iff.2 ⟨mode, modified, h.stat? hstat, hreadable⟩

/-! ## The last name on a way -/

/-- A walk along more names goes on where the first ones lead. -/
theorem walk_append (d : Disk) (p : Place) (ns ms : List String) :
    d.walk p (ns ++ ms) = match d.walk p ns with
      | .arrived q => d.walk q ms
      | .lost fault => .lost fault
      | .link target rest => .link target (rest ++ ms) := by
  induction ns generalizing p with
  | nil => rfl
  | cons name ns ih =>
    rw [List.cons_append, walk_cons, walk_cons]
    cases d.inside p name with
    | error fault => rfl
    | ok q =>
      dsimp only
      split
      · exact ih p
      · split
        · exact ih _
        · split
          · rfl
          · exact ih q

/-- A walk by one name arrives at the place of this name, or a link is there. -/
theorem walk_singleton {d : Disk} {q : Place} {name : String} (hname : name ≠ "." ∧ name ≠ "..")
    {w : Walk} (hw : d.walk q [name] = w) (hlost : ∀ fault, w ≠ .lost fault) :
    w = .arrived (q ++ [name]) ∨ (d.node? (q ++ [name])).isSome := by
  have hinside := inside_of_walk_cons hw hlost
  rw [walk_cons, hinside] at hw
  dsimp only at hw
  rw [if_neg hname.1, if_neg hname.2] at hw
  cases hnode : d.node? (q ++ [name]) with
  | some n => exact .inr rfl
  | none =>
    rw [hnode] at hw
    exact .inl hw.symm

/-- The last name on a way is one in the directory to which the names before lead. It is that of the
place where the way ends, or of a node. -/
theorem Leads.exists_last {d : Disk} {links : Nat} {ns : List String} {name : String} {p : Place}
    (hname : name ≠ "." ∧ name ≠ "..") (h : d.Leads links (ns ++ [name]) p) :
    ∃ q, d.Leads links ns q ∧ d.inside q name = .ok (q ++ [name]) ∧
      (p = q ++ [name] ∨ (d.node? (q ++ [name])).isSome) := by
  generalize hms : ns ++ [name] = ms at h
  -- Each link that is met among the names before leaves the last one as it is.
  induction h generalizing ns with
  | arrived hw =>
    rw [← hms, walk_append] at hw
    cases hns : d.walk [] ns with
    | arrived q =>
      rw [hns] at hw
      exact ⟨q, .arrived hns, inside_of_walk_cons hw nofun,
        (walk_singleton hname hw nofun).imp_left Walk.arrived.inj⟩
    | lost fault =>
      rw [hns] at hw
      cases hw
    | link target rest =>
      rw [hns] at hw
      cases hw
  | link hw _ ih =>
    rw [← hms, walk_append] at hw
    cases hns : d.walk [] ns with
    | arrived q =>
      rw [hns] at hw
      refine ⟨q, .arrived hns, inside_of_walk_cons hw nofun, .inr ?_⟩
      rcases walk_singleton hname hw nofun with hend | hnode
      · cases hend
      · exact hnode
    | lost fault =>
      rw [hns] at hw
      cases hw
    | link target rest =>
      rw [hns] at hw
      obtain ⟨rfl, rfl⟩ := Walk.link.inj hw
      obtain ⟨q, hq, hlast⟩ := ih (List.append_assoc ..)
      exact ⟨q, .link hns hq, hlast⟩

/-- A name in a directory is that of a node if it is the last one on the way to something. Where the
directory is follows from the names before. -/
theorem Leads.exists_entry {d : Disk} {links : Nat} {ns : List String} {name : String} {p : Place}
    (hname : name ≠ "." ∧ name ≠ "..") (h : d.Leads links (ns ++ [name]) p)
    (hthere : (d.node? p).isSome) :
    ∃ q, d.Leads links ns q ∧ d.inside q name = .ok (q ++ [name]) ∧
      (d.node? (q ++ [name])).isSome := by
  obtain ⟨q, hq, hinside, hlast⟩ := h.exists_last hname
  exact ⟨q, hq, hinside, hlast.elim (fun heq => heq ▸ hthere) id⟩

/-- A walk from where names lead goes on behind them. -/
theorem Leads.append {d : Disk} {links : Nat} {ns : List String} {p : Place}
    (h : d.Leads links ns p) {ms : List String} {q : Place} (hw : d.walk p ms = .arrived q) :
    d.Leads links (ns ++ ms) q := by
  induction h with
  | @arrived links ns p hns =>
    refine .arrived ?_
    rw [walk_append, hns]
    exact hw
  | @link links ns target rest p hns _ ih =>
    -- The walk is led on by the same link, with more names behind it.
    have hwalk : d.walk [] (ns ++ ms) = .link target (rest ++ ms) := by
      rw [walk_append, hns]
    refine .link hwalk ?_
    rw [← List.append_assoc]
    exact ih hw

/-- Names lead on to a name in the directory that they lead to, where no link stands. -/
theorem Leads.concat {d : Disk} {links : Nat} {ns : List String} {p : Place}
    (h : d.Leads links ns p) {name : String} (hname : name ≠ "." ∧ name ≠ "..") {q : Place}
    (hq : d.inside p name = .ok q)
    (hend : ∀ target, d.node? q ≠ some (.link target)) : d.Leads links (ns ++ [name]) q := by
  refine h.append ?_
  rw [walk_cons, hq]
  dsimp only
  rw [if_neg hname.1, if_neg hname.2]
  split
  · next target htarget => exact absurd htarget (hend target)
  · rfl

/-- What is put at the end of a path goes to its last name, unless it holds a slash. -/
theorem exists_namesOf_append (path : String) :
    ∃ names last, ∀ suffix : String, suffix ≠ "" → '/' ∉ suffix.toList →
      namesOf (path ++ suffix) = names ++ [last ++ suffix] := by
  obtain ⟨parts, last, hsplit⟩ := Text.exists_splitAt_append '/' path.toList
  refine ⟨(parts.map String.ofList).filter (· ≠ ""), String.ofList last, ?_⟩
  intro suffix hne hslash
  have hsuffix : suffix.toList ≠ [] := fun h => hne (String.toList_eq_nil_iff.1 h)
  have hlast : (path ++ suffix).toList.getLast? ≠ some '/' := by
    rw [String.toList_append, List.getLast?_append]
    cases hc : suffix.toList.getLast? with
    | none => exact absurd (List.getLast?_eq_none_iff.1 hc) hsuffix
    | some c =>
      intro h
      exact hslash (Option.some.inj h ▸ List.mem_of_getLast? hc)
  have hname : String.ofList (last ++ suffix.toList) = String.ofList last ++ suffix := by
    rw [String.ofList_append, String.ofList_toList]
  have hkept : [String.ofList last ++ suffix].filter (· ≠ "") = [String.ofList last ++ suffix] :=
    List.filter_cons_of_pos (by simp [hne])
  unfold namesOf partsOf Text.splitString
  rw [if_neg hlast, String.toList_append, hsplit suffix.toList hslash, List.map_append,
    List.filter_append, List.map_singleton, hname, hkept]

/-- A name that has more in it than dots is neither of the two that have a meaning of their own. -/
theorem append_ne_dots (last : String) {suffix : String} {c : Char} (hc : c ∈ suffix.toList)
    (hdot : c ≠ '.') : last ++ suffix ≠ "." ∧ last ++ suffix ≠ ".." := by
  have hmem : c ∈ (last ++ suffix).toList := by
    rw [String.toList_append]
    exact List.mem_append_right _ hc
  constructor
  · intro heq
    rw [heq] at hmem
    exact hdot (List.mem_singleton.1 hmem)
  · intro heq
    rw [heq] at hmem
    exact hdot (List.eq_of_mem_replicate (n := 2) hmem)

/-- Paths that differ in what is put at their end go through one directory, if anywhere. -/
theorem exists_directory (d : Disk) (path : String) :
    ∃ directory last, ∀ suffix : String, suffix ≠ "" → '/' ∉ suffix.toList →
      last ++ suffix ≠ "." ∧ last ++ suffix ≠ ".." → d.isThere (path ++ suffix) = true →
        (d.node? (directory ++ [last ++ suffix])).isSome := by
  obtain ⟨names, last, hnames⟩ := exists_namesOf_append path
  refine ⟨(d.follow linkLimit names).toOption.getD [], last, ?_⟩
  intro suffix hne hslash hdots hthere
  obtain ⟨n, hstat⟩ := Option.isSome_iff_exists.1 hthere
  obtain ⟨p, hp, hnode⟩ := Option.bind_eq_some_iff.1 hstat
  obtain ⟨-, hleads⟩ := resolve?_eq_some_iff.1 hp
  rw [hnames suffix hne hslash] at hleads
  obtain ⟨q, hq, -, hentry⟩ := hleads.exists_entry hdots (Option.isSome_iff_exists.2 ⟨n, hnode⟩)
  rw [follow_eq_ok_iff.2 hq]
  exact hentry

/-- What stands anywhere but at the top is one of the disk's nodes. -/
theorem mem_nodes_of_node? {d : Disk} {p : Place} (hp : p ≠ []) (h : (d.node? p).isSome) :
    p ∈ d.nodes.map Prod.fst := by
  obtain ⟨n, hn⟩ := Option.isSome_iff_exists.1 h
  unfold node? at hn
  rw [if_neg (by simp [hp])] at hn
  obtain ⟨before, after, hnodes, -⟩ := List.lookup_eq_some_iff.1 hn
  rw [hnodes]
  exact List.mem_map.2 ⟨_, List.mem_append_right _ (List.mem_cons_self ..), rfl⟩

end TypedConfig.Disk
