import Mathlib.Data.List.Infix
import TypedConfig.Proofs.Paths

/-!
# The places that paths lead to

A walk steps from directory to directory and is led on by links. So where it arrives, directories
stand all the way above, and no link stands at the end (`Disk.Leads.reached`). The path of such a
place names that place again, on any disk with no links on the way (`Disk.eq_of_entry?_pathOf`).

The path of a file names the place of its last name in the directory to which the names before lead
(`Disk.entry?_eq_some_iff`), and goes on doing so on a disk that grows (`Disk.Grows.entry?`).
-/

namespace TypedConfig

namespace Disk

variable {d d' : Disk}

/-! ## Where walks arrive -/

/-- A name as it stands between the slashes of a path. -/
def IsPart (name : String) : Prop :=
  name ≠ "" ∧ '/' ∉ name.toList

/-- A place as a walk can arrive at: directories stand above it, no link stands at it, and none of
its names has a meaning of its own. -/
structure Reached (d : Disk) (p : Place) : Prop where
  names : ∀ name ∈ p, IsPart name ∧ name ≠ "." ∧ name ≠ ".."
  above : ∀ q, q <+: p → q ≠ p → d.node? q = some .directory
  end_ne_link : ∀ target, d.node? p ≠ some (.link target)

/-- A walk can arrive at the top. -/
theorem reached_top (d : Disk) : d.Reached [] where
  names := List.forall_mem_nil _
  above _ hq hne := absurd (List.prefix_nil.1 hq) hne
  end_ne_link := nofun

/-- One level up there is a directory. -/
theorem Reached.up {p : Place} (h : d.Reached p) : d.Reached p.dropLast := by
  by_cases hp : p = []
  · rw [hp]
    exact reached_top d
  have hlength : p.dropLast.length < p.length := by
    rw [List.length_dropLast]
    exact Nat.sub_lt (List.length_pos_iff.2 hp) Nat.one_pos
  have hne {q : Place} (hq : q <+: p.dropLast) : q ≠ p := by
    rintro rfl
    exact absurd hq.length_le (Nat.not_le.2 hlength)
  refine ⟨fun name hname => h.names name ((List.dropLast_prefix p).subset hname), ?_, ?_⟩
  · exact fun q hq _ => h.above q (hq.trans (List.dropLast_prefix p)) (hne hq)
  · intro target
    rw [h.above _ (List.dropLast_prefix p) (hne (List.prefix_refl _))]
    nofun

/-- A walk goes on to a name in a directory, where no link stands. -/
theorem Reached.down {p : Place} (h : d.Reached p) (hdirectory : d.node? p = some .directory)
    {name : String} (hname : IsPart name ∧ name ≠ "." ∧ name ≠ "..")
    (hend : ∀ target, d.node? (p ++ [name]) ≠ some (.link target)) : d.Reached (p ++ [name]) where
  names := List.forall_mem_append.2 ⟨h.names, List.forall_mem_singleton.2 hname⟩
  above q hq hne := by
    rcases List.prefix_concat_iff.1 hq with rfl | hq
    · exact absurd rfl hne
    · by_cases hqp : q = p
      · rw [hqp]
        exact hdirectory
      · exact h.above q hq hqp
  end_ne_link := hend

/-- Where a walk arrives it could arrive. -/
theorem Reached.walk {p q : Place} (h : d.Reached p) {ns : List String} (hns : ∀ n ∈ ns, IsPart n)
    (hw : d.walk p ns = .arrived q) : d.Reached q := by
  -- Name by name the walk stays at places at which it could end.
  induction ns generalizing p with
  | nil =>
    obtain rfl := Walk.arrived.inj hw
    exact h
  | cons name ns ih =>
    have hrest : ∀ n ∈ ns, IsPart n := fun n hn => hns n (List.mem_cons_of_mem _ hn)
    rw [walk_cons] at hw
    cases hinside : d.inside p name with
    | error fault =>
      rw [hinside] at hw
      cases hw
    | ok r =>
      obtain ⟨hdirectory, -, rfl⟩ := inside_eq_ok_iff.1 hinside
      rw [hinside] at hw
      dsimp only at hw
      split at hw
      · exact ih h hrest hw
      · next hdot =>
        split at hw
        · exact ih h.up hrest hw
        · next hup =>
          split at hw
          · cases hw
          · next hend =>
            have hname := hns name (List.mem_cons_self ..)
            exact ih (h.down hdirectory ⟨hname, hdot, hup⟩ hend) hrest hw

/-- The names that are left after a link are among those of the walk. -/
theorem subset_of_walk_link {p : Place} {ns : List String} {target : String} {rest : List String}
    (hw : d.walk p ns = .link target rest) : rest ⊆ ns := by
  induction ns generalizing p with
  | nil => cases hw
  | cons name ns ih =>
    rw [walk_cons] at hw
    split at hw
    · cases hw
    · split at hw
      · exact List.subset_cons_of_subset _ (ih hw)
      · split at hw
        · exact List.subset_cons_of_subset _ (ih hw)
        · split at hw
          · obtain ⟨-, rfl⟩ := Walk.link.inj hw
            exact List.subset_cons_self ..
          · exact List.subset_cons_of_subset _ (ih hw)

/-- The names of a path are what stands between its slashes. -/
theorem isPart_of_mem_namesOf {path name : String} (h : name ∈ namesOf path) : IsPart name := by
  have hparts : ∀ name ∈ partsOf path, IsPart name := by
    intro name hname
    obtain ⟨hmem, hne⟩ := List.mem_filter.1 hname
    obtain ⟨part, hpart, rfl⟩ := List.mem_map.1 hmem
    refine ⟨by simpa using hne, ?_⟩
    rw [String.toList_ofList]
    exact Text.not_mem_of_mem_splitAt hpart
  have hdot : IsPart "." := ⟨by decide, by decide⟩
  unfold namesOf at h
  split at h
  · rcases List.mem_append.1 h with h | h
    · exact hparts name h
    · rw [List.mem_singleton.1 h]
      exact hdot
  · exact hparts name h

/-- Names lead to a place that a walk can arrive at. -/
theorem Leads.reached {links : Nat} {ns : List String} {p : Place} (h : d.Leads links ns p)
    (hns : ∀ n ∈ ns, IsPart n) : d.Reached p := by
  induction h with
  | arrived hw => exact (reached_top d).walk hns hw
  | link hw _ ih =>
    -- The names of a link are those of a path, and the others are left of the walk.
    refine ih (List.forall_mem_append.2 ⟨fun n hn => isPart_of_mem_namesOf hn, ?_⟩)
    exact fun n hn => hns n (subset_of_walk_link hw hn)

/-- Names lead to one place. -/
theorem Leads.unique {links : Nat} {ns : List String} {p q : Place} (hp : d.Leads links ns p)
    (hq : d.Leads links ns q) : p = q :=
  Except.ok.inj ((follow_eq_ok_iff.2 hp).symm.trans (follow_eq_ok_iff.2 hq))

/-! ## Paths of files -/

/-- What a path names whose last name has no meaning of its own: that name in the directory to which
the names before lead. -/
theorem entry?_eq_some_iff {path : String} {ns : List String} {name : String}
    (hpath : namesOf path = ns ++ [name]) (hname : name ≠ "." ∧ name ≠ "..") {p : Place} :
    d.entry? path = some p ↔ isPath path = true ∧ ∃ q, d.Leads linkLimit ns q ∧
      d.node? q = some .directory ∧ name.utf8ByteSize ≤ nameLimit ∧ p = q ++ [name] := by
  have hplace : d.place (namesOf path) = (d.follow linkLimit ns).bind fun q => d.inside q name := by
    unfold place
    rw [hpath, List.getLast?_concat, List.dropLast_concat]
    dsimp only
    rw [if_neg (by simpa using hname)]
    rfl
  unfold entry?
  rw [hplace]
  cases hvalid : isPath path with
  | false => simp
  | true =>
    -- The names before the last one are followed, and the last one is put below their end.
    simp only [if_true, true_and]
    cases hfollow : d.follow linkLimit ns with
    | error fault =>
      constructor
      · nofun
      · rintro ⟨q, hq, -⟩
        rw [follow_eq_ok_iff.2 hq] at hfollow
        cases hfollow
    | ok q =>
      have hq := follow_eq_ok_iff.1 hfollow
      constructor
      · intro h
        have hinside : d.inside q name = .ok p := by
          cases hin : d.inside q name with
          | error fault => simp [Except.bind, hin, Except.toOption] at h
          | ok r =>
            simp only [Except.bind, hin, Except.toOption, Option.some.injEq] at h
            rw [h]
        obtain ⟨hdirectory, hsize, hp⟩ := inside_eq_ok_iff.1 hinside
        exact ⟨q, hq, hdirectory, hsize, hp⟩
      · rintro ⟨r, hr, hdirectory, hsize, hp⟩
        obtain rfl := hr.unique hq
        have hinside := inside_eq_ok_iff.2 ⟨hdirectory, hsize, hp⟩
        simp [Except.bind, hinside, Except.toOption]

/-- A path of a file goes on naming its place. -/
theorem KeepsWays.entry? (h : d.KeepsWays d') {path : String} {ns : List String} {name : String}
    (hpath : namesOf path = ns ++ [name]) (hname : name ≠ "." ∧ name ≠ "..") {p : Place}
    (hp : d.entry? path = some p) : d'.entry? path = some p := by
  obtain ⟨hvalid, q, hq, hdirectory, hsize, rfl⟩ := (entry?_eq_some_iff hpath hname).1 hp
  -- The way ends at a directory, where nothing can be added.
  have hdirectory' := h.directories q hdirectory
  have hq' : d'.Leads linkLimit ns q := by
    refine h.leads hq fun _ => ?_
    rw [hdirectory']
    exact fun _ => nofun
  exact (entry?_eq_some_iff hpath hname).2 ⟨hvalid, q, hq', hdirectory', hsize, rfl⟩

/-- A path whose last name is plain has its place on a disk that has grown. -/
theorem Grows.entry? (h : d.Grows d') {path : String} {ns : List String} {name : String}
    (hpath : namesOf path = ns ++ [name]) (hname : name ≠ "." ∧ name ≠ "..") {p : Place}
    (hp : d.entry? path = some p) : d'.entry? path = some p :=
  h.keepsWays.entry? hpath hname hp

/-- The last name of a path has no meaning of its own. -/
def NamesFile (path : String) : Prop :=
  ∃ ns name, namesOf path = ns ++ [name] ∧ name ≠ "." ∧ name ≠ ".."

/-- Paths of files name the places that they did. -/
theorem SameWays.entry?_eq (h : d.SameWays d') {path : String} (hpath : NamesFile path) :
    d'.entry? path = d.entry? path := by
  obtain ⟨ns, name, hnames, hname⟩ := hpath
  exact Option.ext fun p =>
    ⟨h.symm.keepsWays.entry? hnames hname, h.keepsWays.entry? hnames hname⟩

/-- Where a path names a place without a link, it leads there. -/
theorem resolve?_of_no_link {path : String} (hpath : NamesFile path)
    (hlink : ∀ p target, d.entry? path = some p → d.node? p ≠ some (.link target)) :
    d.resolve? path = d.entry? path := by
  obtain ⟨ns, name, hpath, hname⟩ := hpath
  cases hp : d.entry? path with
  | some p =>
    obtain ⟨hvalid, q, hq, hdirectory, hsize, rfl⟩ := (entry?_eq_some_iff hpath hname).1 hp
    have hleads := hq.concat hname (inside_eq_ok_iff.2 ⟨hdirectory, hsize, rfl⟩)
      fun target => hlink _ target hp
    exact resolve?_eq_some_iff.2 ⟨hvalid, hpath ▸ hleads⟩
  | none =>
    cases hr : d.resolve? path with
    | none => rfl
    | some r =>
      obtain ⟨hvalid, hleads⟩ := resolve?_eq_some_iff.1 hr
      obtain ⟨q, hq, hinside, -⟩ := (hpath ▸ hleads : d.Leads _ (ns ++ [name]) r).exists_last hname
      obtain ⟨hdirectory, hsize, -⟩ := inside_eq_ok_iff.1 hinside
      have hentry := (entry?_eq_some_iff hpath hname).2 ⟨hvalid, q, hq, hdirectory, hsize, rfl⟩
      rw [hp] at hentry
      cases hentry

/-- A path that was given an end names something at a place whose last name has this end. -/
theorem namesFile_append (path : String) {suffix : String} {c : Char} (hc : c ∈ suffix.toList)
    (hdot : c ≠ '.') (hslash : '/' ∉ suffix.toList) : NamesFile (path ++ suffix) ∧
      ∀ (d : Disk) (p : Place), d.entry? (path ++ suffix) = some p →
        ∃ q last, p = q ++ [last ++ suffix] := by
  obtain ⟨ns, last, hnames⟩ := exists_namesOf_append path
  have hne : suffix ≠ "" := by
    rintro rfl
    cases hc
  have hpath := hnames suffix hne hslash
  have hplain := append_ne_dots last hc hdot
  refine ⟨⟨ns, last ++ suffix, hpath, hplain⟩, fun d p hp => ?_⟩
  obtain ⟨-, q, -, -, -, rfl⟩ := (entry?_eq_some_iff hpath hplain).1 hp
  exact ⟨q, last, rfl⟩

/-! ## Paths of places -/

/-- A walk by names of places that meets no link arrives at their place, if it is not lost. -/
theorem walk_of_no_link {p : Place} {ns : List String} (hns : ∀ n ∈ ns, n ≠ "." ∧ n ≠ "..")
    (hlink : ∀ q, q <+: ns → q ≠ [] → ∀ target, d.node? (p ++ q) ≠ some (.link target)) :
    d.walk p ns = .arrived (p ++ ns) ∨ ∃ fault, d.walk p ns = .lost fault := by
  induction ns generalizing p with
  | nil =>
    rw [List.append_nil]
    exact .inl rfl
  | cons name ns ih =>
    rw [walk_cons]
    cases hinside : d.inside p name with
    | error fault => exact .inr ⟨fault, rfl⟩
    | ok q =>
      obtain ⟨-, -, rfl⟩ := inside_eq_ok_iff.1 hinside
      obtain ⟨hdot, hup⟩ := hns name (List.mem_cons_self ..)
      have hhere := hlink [name] (List.prefix_append [name] ns) (List.cons_ne_nil _ _)
      have hrest := ih (p := p ++ [name]) (fun n hn => hns n (List.mem_cons_of_mem _ hn)) (by
        intro q hq hne target
        rw [List.append_assoc]
        exact hlink ([name] ++ q) ((List.prefix_cons_inj name).2 hq) (List.cons_ne_nil _ _) target)
      rw [List.append_assoc] at hrest
      dsimp only
      rw [if_neg hdot, if_neg hup]
      split
      · next target htarget => exact absurd htarget (hhere target)
      · exact hrest

/-- The path of a place has a slash before each name. -/
theorem toList_pathOf (p : Place) :
    (pathOf p).toList = '/' :: ['/'].intercalate (p.map String.toList) := by
  unfold pathOf
  rw [String.toList_append, String.toList_intercalate]
  rfl

/-- The names on the path of a place are those of the place. -/
theorem namesOf_pathOf {p : Place} (hne : p ≠ []) (hp : ∀ n ∈ p, IsPart n) :
    namesOf (pathOf p) = p := by
  have hparts : p.map String.toList ≠ [] := by simpa using hne
  have hpart : ∀ part ∈ p.map String.toList, part ≠ [] ∧ '/' ∉ part := by
    intro part hpart
    obtain ⟨name, hname, rfl⟩ := List.mem_map.1 hpart
    obtain ⟨hempty, hslash⟩ := hp name hname
    exact ⟨fun h => hempty (String.toList_eq_nil_iff.1 h), hslash⟩
  have hlast : (pathOf p).toList.getLast? ≠ some '/' := by
    obtain ⟨c, hc, hslash⟩ := Text.exists_getLast?_intercalate hparts hpart
    rw [toList_pathOf, List.getLast?_cons, hc]
    simpa using hslash
  -- Nothing stands before the first slash, so that part is no name.
  have hsplit : Text.splitAt '/' (pathOf p).toList = [] :: p.map String.toList := by
    rw [toList_pathOf, ← List.nil_append ('/' :: _), Text.splitAt_append_cons List.not_mem_nil,
      Text.splitAt_intercalate hparts fun part h => (hpart part h).2]
  have hkept : p.filter (· ≠ "") = p :=
    List.filter_eq_self.2 fun name hname => by simpa using (hp name hname).1
  unfold namesOf partsOf Text.splitString
  rw [if_neg hlast, hsplit, List.map_cons, List.map_map]
  have hid : String.ofList ∘ String.toList = id := funext fun s => String.ofList_toList
  rw [hid, List.map_id, List.filter_cons_of_neg (by simp), hkept]

/-- The path of a place names that place, if anything, on any disk without links above it. -/
theorem eq_of_entry?_pathOf {p q : Place}
    (hp : ∀ name ∈ p, IsPart name ∧ name ≠ "." ∧ name ≠ "..")
    (hlink : ∀ q, q <+: p → q ≠ p → ∀ target, d.node? q ≠ some (.link target))
    (hq : d.entry? (pathOf p) = some q) : q = p := by
  rcases List.eq_nil_or_concat p with rfl | ⟨above, name, rfl⟩
  · have htop : d.entry? (pathOf []) = some [] := by rfl
    exact Option.some.inj (hq.symm.trans htop)
  · rw [List.concat_eq_append] at *
    have hnames := namesOf_pathOf (by simp) fun n hn => (hp n hn).1
    have hname := (hp name (by simp)).2
    obtain ⟨-, r, hr, -, -, rfl⟩ := (entry?_eq_some_iff hnames hname).1 hq
    -- No link is met above, so there the names lead to the place that they make.
    have hwalk := walk_of_no_link (d := d) (p := [])
      (fun n hn => (hp n (List.mem_append_left _ hn)).2) (by
        intro q hq _
        refine hlink q (hq.trans (List.prefix_append _ _)) ?_
        rintro rfl
        exact absurd hq.length_le (by simp))
    have habove : r = above := by
      cases hr with
      | arrived hw =>
        rw [hw] at hwalk
        rcases hwalk with h | ⟨fault, h⟩
        · exact Walk.arrived.inj h
        · cases h
      | link hw =>
        rw [hw] at hwalk
        rcases hwalk with h | ⟨fault, h⟩ <;> cases h
    rw [habove]

end Disk

end TypedConfig
