import TypedConfig.Proofs.Places

/-!
# What accesses to files do

One statement for each access that changes the disk says when it succeeds and which disk it leaves.
Making directories is a recursion that may stop midway: however far it comes, the disk has more than
before only directories, all of them on the way (`Disk.gains_makeDirectories`).
-/

namespace TypedConfig.Disk

variable {d d' d'' : Disk}

/-! ## Files -/

/-- A file or a link that may be changed is removed. -/
theorem remove_eq_some_iff {path : String} :
    d.remove path = some d' ↔ ∃ p, d.entry? path = some p ∧ d.node? p ≠ none ∧
      d.node? p ≠ some .directory ∧ mayChange p = true ∧ d' = d.drop p := by
  unfold remove
  simp only [Option.bind_eq_bind, Option.bind_eq_some_iff]
  refine exists_congr fun p => and_congr_right fun _ => ?_
  have hdrop : (if mayChange p then some (d.drop p) else none) = some d' ↔
      mayChange p = true ∧ d' = d.drop p := by
    rw [Option.ite_none_right_eq_some]
    exact and_congr_right fun _ =>
      ⟨fun h => (Option.some.inj h).symm, fun h => congrArg some h.symm⟩
  cases hnode : d.node? p with
  | none => simp
  | some n =>
    cases n with
    | directory => simp
    | file content mode modified => simpa using hdrop
    | link target => simpa using hdrop

/-- An empty file is made in a free place that may be changed. -/
theorem create_eq_some_iff {path : String} {mode : Nat} :
    d.create path mode = some d' ↔ ∃ p, d.entry? path = some p ∧ d.node? p = none ∧
      mayChange p = true ∧ d' = d.writeAt p [] mode := by
  unfold create
  simp only [Option.bind_eq_bind, Option.bind_eq_some_iff]
  refine exists_congr fun p => and_congr_right fun _ => ?_
  rw [Option.ite_none_right_eq_some, Option.isNone_iff_eq_none, and_assoc]
  refine and_congr_right fun _ => and_congr_right fun _ => ?_
  exact ⟨fun h => (Option.some.inj h).symm, fun h => congrArg some h.symm⟩

/-- A file that is there is filled, if the disk has room. -/
theorem exists_of_fill {path : String} {content : List UInt8} {mode : Nat}
    (h : d.fill path content mode = some d') :
    ∃ p old oldMode modified, d.entry? path = some p ∧
      d.node? p = some (.file old oldMode modified) ∧ d.isFull = false ∧
      d' = d.writeAt p content mode := by
  unfold fill at h
  simp only [Option.bind_eq_bind, Option.bind_eq_some_iff] at h
  obtain ⟨p, hp, hfill⟩ := h
  split at hfill
  · next old oldMode modified hnode =>
    split at hfill
    · cases hfill
    · next hroom =>
      exact ⟨p, old, oldMode, modified, hp, hnode, by simpa using hroom,
        (Option.some.inj hfill).symm⟩
  · cases hfill

/-- What is moved to another place leaves its own, and goes over what stands there, unless that is a
directory. -/
theorem exists_of_rename {old new : String} (h : d.rename old new = some d') :
    ∃ p n q, d.entry? old = some p ∧ d.node? p = some n ∧ d.entry? new = some q ∧
      d.node? q ≠ some .directory ∧ mayChange p = true ∧ mayChange q = true ∧
      d' = if p = q then d else (d.drop p).put q n := by
  unfold rename at h
  simp only [Option.bind_eq_bind, Option.bind_eq_some_iff] at h
  obtain ⟨p, hp, n, hn, q, hq, hmove⟩ := h
  split at hmove
  · cases hmove
  · next hfine =>
    simp only [isDirectoryAt, beq_iff_eq, not_or, Bool.not_eq_true', Bool.not_eq_false] at hfine
    obtain ⟨hdirectory, hchange, hchange'⟩ := hfine
    refine ⟨p, n, q, hp, hn, hq, hdirectory, hchange, hchange', ?_⟩
    split at hmove
    · next hsame => rw [if_pos hsame, Option.some.inj hmove]
    · next hother => rw [if_neg hother, Option.some.inj hmove]

/-! ## Directories that are made -/

/-- The second disk has more than the first one only directories, at places to which names of a kind
lead. -/
structure Gains (way : List String → Prop) (d d' : Disk) : Prop where
  grows : d.Grows d'
  directories : ∀ p, d'.node? p ≠ d.node? p →
    d'.node? p = some .directory ∧ ∃ ns, way ns ∧ d'.Leads linkLimit ns p

/-- The names on the way to a directory: the first names of its path, where single dots do not
count. -/
def OnWay (dir : String) (ns : List String) : Prop :=
  ns.filter (· ≠ ".") <+: (partsOf dir).filter (· ≠ ".")

variable {way : List String → Prop}

/-- A disk has nothing more than itself. -/
theorem Gains.refl (d : Disk) : d.Gains way d where
  grows := .refl d
  directories _ h := absurd rfl h

/-- What a disk has more than one that has more itself are the directories of both. -/
theorem Gains.trans (h : d.Gains way d') (h' : d'.Gains way d'') : d.Gains way d'' where
  grows p n hn := h'.grows p n (h.grows p n hn)
  directories p hp := by
    by_cases hlater : d''.node? p = d'.node? p
    · rw [hlater] at hp ⊢
      obtain ⟨hnode, ns, hns, hleads⟩ := h.directories p hp
      refine ⟨hnode, ns, hns, h'.grows.leads hleads fun hfree => ?_⟩
      rw [hnode] at hfree
      cases hfree
    · exact h'.directories p hlater

/-- Directories that are made after a file was could be made without it. -/
theorem Gains.drop {made later : Disk} (h : made.Gains way later) {p : Place} (hp : p ≠ [])
    (hfree : d.node? p = none) (hfile : ¬later.LeadsOn p)
    (hothers : ∀ q, q ≠ p → made.node? q = d.node? q) : d.Gains way (later.drop p) := by
  have hdrop := node?_drop (d := later) hp
  constructor
  · intro q n hn
    have hqp : q ≠ p := by
      rintro rfl
      rw [hfree] at hn
      cases hn
    rw [hdrop, if_neg hqp]
    exact h.grows q n (by rw [hothers q hqp, hn])
  · intro q hq
    by_cases hqp : q = p
    · rw [hdrop, if_pos hqp, hqp, hfree] at hq
      exact absurd rfl hq
    rw [hdrop, if_neg hqp] at hq ⊢
    rw [← hothers q hqp] at hq
    obtain ⟨hnode, ns, hns, hleads⟩ := h.directories q hq
    refine ⟨hnode, ns, hns, (sameWays_drop hp hfile).keepsWays.leads hleads fun _ => ?_⟩
    rw [hdrop, if_neg hqp, hnode]
    exact fun _ => nofun

/-- A directory that was put in a free place is led to by the names of this place. -/
theorem leads_of_place {ns : List String} {p : Place} (hp : d.place ns = .ok p)
    (hfree : d.node? p = none) (hne : p ≠ []) :
    (d.put p .directory).Leads linkLimit ns p := by
  have hgrows : d.Grows (d.put p .directory) := .put hne hfree _
  have hnode : (d.put p .directory).node? p = some .directory := by
    rw [node?_put hne, if_pos rfl]
  have hend : ∀ target, (d.put p .directory).node? p ≠ some (.link target) := by
    rw [hnode]
    exact fun _ => nofun
  unfold place at hp
  split at hp
  · exact absurd (Except.ok.inj hp).symm hne
  · next name hlast =>
    split at hp
    · exact hgrows.leads (follow_eq_ok_iff.1 hp) fun _ => hend
    · next hdots =>
      cases hfollow : d.follow linkLimit ns.dropLast with
      | error fault =>
        rw [hfollow] at hp
        cases hp
      | ok q =>
        rw [hfollow] at hp
        have hinside : d.inside q name = .ok p := hp
        obtain ⟨hdirectory, hsize, heq⟩ := inside_eq_ok_iff.1 hinside
        have habove : (d.put p .directory).Leads linkLimit ns.dropLast q := by
          refine hgrows.leads (follow_eq_ok_iff.1 hfollow) fun hmissing => ?_
          rw [hdirectory] at hmissing
          cases hmissing
        rw [← List.dropLast_append_getLast? name hlast]
        exact habove.concat (by simpa using hdots)
          (inside_eq_ok_iff.2 ⟨hgrows q _ hdirectory, hsize, heq⟩) hend

/-- A directory is made where nothing stands, or it is there. -/
theorem gains_of_makeDirectory {ns : List String} (hns : way ns) (h : d.makeDirectory ns = .ok d') :
    d.Gains way d' := by
  unfold makeDirectory at h
  cases hp : d.place ns with
  | error fault =>
    rw [hp] at h
    cases h
  | ok p =>
    rw [hp] at h
    simp only [bind, Except.bind] at h
    split at h
    · next hmake =>
      obtain ⟨hfree, hchange⟩ := hmake
      have hfree : d.node? p = none := Option.isNone_iff_eq_none.1 hfree
      have hne : p ≠ [] := by
        rintro rfl
        cases hfree
      obtain rfl := Except.ok.inj h
      refine ⟨.put hne hfree _, fun q hq => ?_⟩
      have hqp : q = p := by
        by_contra hother
        rw [node?_put hne, if_neg hother] at hq
        exact hq rfl
      rw [hqp]
      exact ⟨by rw [node?_put hne, if_pos rfl], ns, hns, leads_of_place hp hfree hne⟩
    · split at h
      · obtain rfl := Except.ok.inj h
        exact .refl d
      · cases h

/-- The recursion goes up along the names above, which are given backwards. -/
theorem gains_makeBelow (above : List String) {ns : List String} (hns : way ns)
    (habove : ∀ s, s <:+ above → way s.reverse) (d : Disk) :
    d.Gains way (d.makeBelow ns above).1 := by
  induction above generalizing d ns with
  | nil =>
    unfold makeBelow
    split
    · next d' hmade => exact gains_of_makeDirectory hns hmade
    · exact .refl d
    · exact .refl d
  | cons name above ih =>
    have hup := ih (habove _ (List.suffix_refl _))
      (fun s hs => habove s (hs.trans (List.suffix_cons name above))) d
    unfold makeBelow
    split
    · next d' hmade => exact gains_of_makeDirectory hns hmade
    · exact .refl d
    · dsimp only
      split
      · next d' hmade =>
        rw [hmade] at hup
        exact hup
      · next d' hmade =>
        rw [hmade] at hup
        -- What was made above stays, whether the last directory is made or not.
        split
        · next d'' hagain => exact hup.trans (gains_of_makeDirectory hns hagain)
        · exact hup

/-- Making a directory makes no more than this one and those on the way to it. -/
theorem gains_makeDirectories (d : Disk) (dir : String) :
    d.Gains (OnWay dir) (d.makeDirectories dir).1 := by
  unfold makeDirectories
  dsimp only
  split
  · have hway : OnWay dir (partsOf dir) := List.prefix_refl _
    refine gains_makeBelow _ hway (fun s hs => ?_) d
    -- Names above are first names of the path that have no single dot among them.
    have hfirst : s.reverse <+: (partsOf dir).filter (· ≠ ".") := by
      have hsuffix := hs.trans (List.drop_suffix 1 _)
      rwa [← List.reverse_prefix, List.reverse_reverse] at hsuffix
    unfold OnWay
    rwa [List.filter_eq_self.2 fun n hn => (List.mem_filter.1 (hfirst.subset hn)).2]
  · exact .refl d

/-- A slash at the end changes nothing for the path of a directory. -/
theorem resolve?_of_leads {path : String} (hpath : isPath path = true) {p : Place}
    (hp : d.Leads linkLimit (partsOf path) p) (hdirectory : d.node? p = some .directory) :
    d.resolve? path = some p := by
  refine resolve?_eq_some_iff.2 ⟨hpath, ?_⟩
  unfold namesOf
  split
  · refine hp.append ?_
    rw [walk_cons, inside_eq_ok_iff.2 ⟨hdirectory, by decide, rfl⟩]
    rfl
  · exact hp

/-- A directory that was made is there. -/
theorem leads_of_makeDirectory {ns : List String} (h : d.makeDirectory ns = .ok d') :
    ∃ p, d'.Leads linkLimit ns p ∧ d'.node? p = some .directory := by
  unfold makeDirectory at h
  cases hp : d.place ns with
  | error fault =>
    rw [hp] at h
    cases h
  | ok p =>
    rw [hp] at h
    simp only [bind, Except.bind] at h
    split at h
    · next hmake =>
      obtain ⟨hfree, hchange⟩ := hmake
      have hne := ne_top_of_mayChange hchange
      obtain rfl := Except.ok.inj h
      exact ⟨p, leads_of_place hp (Option.isNone_iff_eq_none.1 hfree) hne,
        by rw [node?_put hne, if_pos rfl]⟩
    · split at h
      · next hthere =>
        obtain rfl := Except.ok.inj h
        unfold leadsToDirectory at hthere
        split at hthere
        · next q hq => exact ⟨q, follow_eq_ok_iff.1 hq, eq_of_beq hthere⟩
        · cases hthere
      · cases h

/-- Directories that were made lead to the one that was asked for. -/
theorem isThere_of_makeDirectories {dir : String} (h : d.makeDirectories dir = (d', true)) :
    d'.isThere dir = true := by
  unfold makeDirectories at h
  dsimp only at h
  split at h
  · next hpath =>
    -- Whatever had to be made above, the last step made this directory.
    have hmade : ∃ before : Disk, before.makeDirectory (partsOf dir) = .ok d' := by
      unfold makeBelow at h
      split at h
      · next made hmade => exact ⟨d, by rw [hmade, (Prod.mk.inj h).1]⟩
      · cases h
      · split at h
        · cases h
        · split at h
          · cases h
          · next before _ =>
            split at h
            · next made hmade => exact ⟨before, by rw [hmade, (Prod.mk.inj h).1]⟩
            · cases h
    obtain ⟨before, hmade⟩ := hmade
    obtain ⟨p, hp, hdirectory⟩ := leads_of_makeDirectory hmade
    unfold isThere stat?
    rw [resolve?_of_leads hpath hp hdirectory, Option.bind_some, hdirectory]
    rfl
  · cases h

/-! ## The local time -/

/-- A removal leaves the clock. -/
theorem now_of_remove {path : String} (h : d.remove path = some d') : d'.now = d.now := by
  obtain ⟨_, _, _, _, _, rfl⟩ := remove_eq_some_iff.1 h
  rfl

/-- The making of a file leaves the clock. -/
theorem now_of_create {path : String} {mode : Nat} (h : d.create path mode = some d') :
    d'.now = d.now := by
  obtain ⟨_, _, _, _, rfl⟩ := create_eq_some_iff.1 h
  rfl

/-- The writing of a file leaves the clock. -/
theorem now_of_fill {path : String} {content : List UInt8} {mode : Nat}
    (h : d.fill path content mode = some d') : d'.now = d.now := by
  obtain ⟨_, _, _, _, _, _, _, rfl⟩ := exists_of_fill h
  rfl

/-- A rename leaves the clock. -/
theorem now_of_rename {old new : String} (h : d.rename old new = some d') : d'.now = d.now := by
  obtain ⟨_, _, _, _, _, _, _, _, _, rfl⟩ := exists_of_rename h
  split <;> rfl

/-- The making of a directory leaves the clock. -/
theorem now_of_makeDirectory {ns : List String} (h : d.makeDirectory ns = .ok d') :
    d'.now = d.now := by
  unfold makeDirectory at h
  cases hp : d.place ns with
  | error fault =>
    rw [hp] at h
    cases h
  | ok p =>
    rw [hp] at h
    simp only [bind, Except.bind] at h
    split at h
    · rw [← Except.ok.inj h]
      rfl
    · split at h
      · rw [Except.ok.inj h]
      · cases h

/-- The making of directories one below the other leaves the clock. -/
theorem now_makeBelow (above ns : List String) (d : Disk) :
    (d.makeBelow ns above).1.now = d.now := by
  induction above generalizing d ns with
  | nil =>
    unfold makeBelow
    split
    · next d' hmade => exact now_of_makeDirectory hmade
    · rfl
    · rfl
  | cons name above ih =>
    have hup := ih (name :: above).reverse d
    unfold makeBelow
    split
    · next d' hmade => exact now_of_makeDirectory hmade
    · rfl
    · dsimp only
      split
      · next d' hmade => rwa [hmade] at hup
      · next d' hmade =>
        rw [hmade] at hup
        split
        · next d'' hagain => exact (now_of_makeDirectory hagain).trans hup
        · exact hup

/-- The making of a directory and of those above it leaves the clock. -/
theorem now_makeDirectories (d : Disk) (dir : String) : (d.makeDirectories dir).1.now = d.now := by
  unfold makeDirectories
  dsimp only
  split
  · exact now_makeBelow _ _ d
  · rfl

end TypedConfig.Disk
