import Mathlib.Data.List.Nodup
import Mathlib.Data.List.Perm.Subperm
import TypedConfig.Backup
import TypedConfig.Proofs.Lines
import TypedConfig.Proofs.Paths

/-!
# Backups overwrite nothing

The numbers that are tried for a copy lead to different nodes, so one of them is free as soon as
there are more of them than nodes (`Backup.exists_free`). That is how many the probing tries: the
path that it ends with is the first free one (`Backup.freePath_spec`). The copy then holds the bytes
of the file and is all that is new (`Disk.Copied`), so whatever stood somewhere stands there still
(`Backup.make_spec`).
-/

namespace TypedConfig

/-- Different numbers have different decimal forms. -/
theorem Numeral.ofNat_inj {m n : Nat} (h : ofNat m = ofNat n) : m = n := by
  have hdigits := digits?_ofNat m
  rw [h, digits?_ofNat n] at hdigits
  exact (Option.some.inj hdigits).symm

namespace Backup

/-! ## A free path -/

/-- What ends with a number is neither of the names that have a meaning of their own. -/
theorem numbered_ne_dots (last : String) (index : Nat) :
    numbered last index ≠ "." ∧ numbered last index ≠ ".." := by
  have hdigits : (Numeral.ofNat index).toList ≠ [] := by
    rw [Numeral.ofNat, String.toList_ofList]
    exact Numeral.digitsOf_ne_nil 10 index index
  obtain ⟨c, hc⟩ := List.exists_mem_of_ne_nil _ hdigits
  have hdot : c ≠ '.' := by
    rintro rfl
    exact absurd (Numeral.isDigit_of_mem_ofNat hc) (by decide)
  exact Disk.append_ne_dots (last ++ ".") hc hdot

/-- Two numbers make two paths. -/
theorem numbered_inj {base : String} {i j : Nat} (h : numbered base i = numbered base j) :
    i = j := by
  have hlist := congrArg String.toList h
  simp only [numbered, String.toList_append] at hlist
  exact Numeral.ofNat_inj (String.toList_inj.1 (List.append_cancel_left hlist))

/-- Each number has a place of its own, where a node stands if the path with the number leads to
anything. -/
theorem exists_places (d : Disk) (base : String) :
    ∃ place : Nat → Place, Function.Injective place ∧
      ∀ index, d.isThere (numbered base index) = true → place index ∈ d.nodes.map Prod.fst := by
  obtain ⟨directory, last, hdirectory⟩ := d.exists_directory base
  refine ⟨fun index => directory ++ [numbered last index], fun i j h => ?_, fun index h => ?_⟩
  · have hsame := List.append_cancel_left h
    exact numbered_inj (List.cons.inj hsame).1
  · have happend (s : String) : numbered s index = s ++ ("." ++ Numeral.ofNat index) :=
      String.append_assoc ..
    have hslash : '/' ∉ ("." ++ Numeral.ofNat index).toList := by
      rw [String.toList_append]
      intro hmem
      rcases List.mem_append.1 hmem with hmem | hmem
      · exact absurd hmem (by decide)
      · exact absurd (Numeral.isDigit_of_mem_ofNat hmem) (by decide)
    have hdots := numbered_ne_dots last index
    refine Disk.mem_nodes_of_node? (List.append_ne_nil_of_right_ne_nil _ (List.cons_ne_nil _ _)) ?_
    show (d.node? (directory ++ [numbered last index])).isSome
    rw [happend] at h hdots ⊢
    exact hdirectory _ (by simp) hslash hdots h

/-- Of one more number than there are nodes one leads to nothing. -/
theorem exists_free (d : Disk) (base : String) :
    ∃ index, 2 ≤ index ∧ index ≤ d.nodes.length + 2 ∧ d.isThere (numbered base index) = false := by
  by_contra hnone
  push Not at hnone
  -- Then the places of all these numbers are nodes, one more than there are.
  obtain ⟨place, hinjective, hplace⟩ := exists_places d base
  have hnodup : ((List.range (d.nodes.length + 1)).map fun i => place (i + 2)).Nodup :=
    List.nodup_range.map fun i j h => Nat.add_right_cancel (hinjective h)
  have hsubset : ((List.range (d.nodes.length + 1)).map fun i => place (i + 2)) ⊆
      d.nodes.map Prod.fst := by
    intro p hp
    obtain ⟨i, hi, rfl⟩ := List.mem_map.1 hp
    have hlt := List.mem_range.1 hi
    exact hplace _ (by simpa using hnone (i + 2) (by omega) (by omega))
  have hlength := (hnodup.subperm hsubset).length_le
  simp only [List.length_map, List.length_range] at hlength
  omega

/-- The probing ends at the first free number, or after its last attempt. -/
theorem firstFree_spec (d : Disk) (base : String) (attempts start : Nat) :
    ∃ index, firstFree d base attempts start = numbered base index ∧ start ≤ index ∧
      index ≤ start + attempts ∧
      (∀ i, start ≤ i → i < index → d.isThere (numbered base i) = true) ∧
      (index < start + attempts → d.isThere (numbered base index) = false) := by
  induction attempts generalizing start with
  | zero =>
    exact ⟨start, rfl, Nat.le_refl _, Nat.le_refl _, fun i _ _ => by omega, fun h => by omega⟩
  | succ attempts ih =>
    unfold firstFree
    split
    · next htaken =>
      obtain ⟨index, heq, hstart, hend, hbefore, hfree⟩ := ih (start + 1)
      refine ⟨index, heq, by omega, by omega, fun i hi hlt => ?_, fun h => hfree (by omega)⟩
      by_cases hfirst : i = start
      · subst hfirst
        exact htaken
      · exact hbefore i (by omega) hlt
    · next hfree =>
      exact ⟨start, rfl, Nat.le_refl _, by omega, fun i _ _ => by omega,
        fun _ => Bool.not_eq_true _ ▸ hfree⟩

/-- The path for a backup leads to nothing: it is the one without a number, or else the one with the
first free number. -/
theorem freePath_spec (d : Disk) (path : String) :
    d.isThere (freePath d path) = false ∧
      (freePath d path = path ++ mark ++ d.now ∨
        ∃ index, 2 ≤ index ∧ freePath d path = numbered (path ++ mark ++ d.now) index ∧
          d.isThere (path ++ mark ++ d.now) = true ∧
          ∀ i, 2 ≤ i → i < index → d.isThere (numbered (path ++ mark ++ d.now) i) = true) := by
  unfold freePath
  dsimp only
  generalize path ++ mark ++ d.now = base
  split
  · next htaken =>
    obtain ⟨index, heq, hstart, hend, hbefore, hfree⟩ := firstFree_spec d base d.nodes.length 2
    rw [heq]
    refine ⟨?_, .inr ⟨index, hstart, rfl, htaken, hbefore⟩⟩
    -- The last number is not looked at, but all others are taken then.
    obtain ⟨k, hk, hkend, hkfree⟩ := exists_free d base
    by_cases hlast : index < 2 + d.nodes.length
    · exact hfree hlast
    · by_cases hki : k < index
      · rw [hbefore k hk hki] at hkfree
        cases hkfree
      · rwa [show index = k by omega]
  · next hfree => exact ⟨by simpa using hfree, .inl rfl⟩

end Backup

/-! ## The copy -/

namespace Disk

/-- A copy can be read where the original could. -/
theorem isReadable_modeOfCopy {mode : Nat} (h : isReadable mode = true) (content : List UInt8) :
    isReadable (modeOfCopy content mode % modeCount) = true := by
  unfold isReadable modeOfCopy modeCount at *
  simp only [beq_iff_eq] at h ⊢
  split
  · omega
  · split <;> omega

/-- A path that leads to nothing and may be written leads to a free place below the top. -/
theorem free_of_writable? {d : Disk} {path : String} {p : Place} (h : d.writable? path = some p)
    (hfree : d.isThere path = false) :
    d.resolve? path = some p ∧ p ≠ [] ∧ d.node? p = none := by
  unfold writable? at h
  simp only [Option.bind_eq_bind, Option.bind_eq_some_iff] at h
  obtain ⟨q, hq, hwritable⟩ := h
  have hnone : d.node? q = none := by
    unfold isThere stat? at hfree
    rw [hq, Option.bind_some] at hfree
    exact Option.not_isSome_iff_eq_none.1 (by rw [hfree]; exact Bool.false_ne_true)
  rw [hnone] at hwritable
  dsimp only at hwritable
  split at hwritable
  · next hchange =>
    obtain rfl := Option.some.inj hwritable
    exact ⟨hq, ne_top_of_mayChange hchange, hnone⟩
  · cases hwritable

/-- A file that is written in a free place is found there by the paths that led to this place, and
the disk grows by it. -/
theorem writeAt_spec {d : Disk} {path : String} {p : Place} (hpath : d.resolve? path = some p)
    (hp : p ≠ []) (hfree : d.node? p = none) (content : List UInt8) (mode : Nat) :
    d.Grows (d.writeAt p content mode) ∧ (d.writeAt p content mode).stat? path =
      some (.file content (mode % modeCount) (.tick (d.ticks + 1))) := by
  have hgrows : d.Grows (d.writeAt p content mode) :=
    Grows.put (d := { d with ticks := d.ticks + 1 }) hp hfree _
  have hnode : (d.writeAt p content mode).node? p =
      some (.file content (mode % modeCount) (.tick (d.ticks + 1))) := by
    rw [node?_writeAt hp, if_pos rfl]
  have hresolve : (d.writeAt p content mode).resolve? path = some p := by
    refine hgrows.resolve? hpath fun _ target => ?_
    rw [hnode]
    nofun
  refine ⟨hgrows, ?_⟩
  unfold stat?
  rw [hresolve, Option.bind_some, hnode]

/-- A copy to a path that leads to nothing is written in a free place. -/
theorem exists_of_copy {d d' : Disk} {old new : String} (h : d.copy old new = some d')
    (hfree : d.isThere new = false) :
    ∃ p content mode, d.read? old = some content ∧ isReadable (mode % modeCount) = true ∧
      d.resolve? new = some p ∧ p ≠ [] ∧ d.node? p = none ∧ d' = d.writeAt p content mode := by
  unfold copy at h
  simp only [Option.bind_eq_bind, Option.bind_eq_some_iff] at h
  obtain ⟨n, hopen, p, hp, hn⟩ := h
  cases n with
  | directory => cases hn
  | link target => cases hn
  | file content mode modified =>
    dsimp only at hn
    split at hn
    · cases hn
    obtain rfl := Option.some.inj hn
    obtain ⟨hstat, hmode⟩ := Option.filter_eq_some_iff.1 hopen
    obtain ⟨hpath, htop, hnone⟩ := free_of_writable? hp hfree
    exact ⟨p, content, modeOfCopy content mode,
      read?_eq_some_iff.2 ⟨mode, modified, hstat, hmode⟩, isReadable_modeOfCopy hmode content,
      hpath, htop, hnone, rfl⟩

/-- The second disk comes from the first by a copy of a file: it stands where nothing stood, its
path led to nothing, and all else is as it was. -/
structure Copied (d d' : Disk) (path copy : String) : Prop where
  isNew : d.isThere copy = false
  /-- The copy holds the bytes of the file. -/
  content : ∃ bytes, d.read? path = some bytes ∧ d'.read? copy = some bytes
  others : ∃ p, d'.resolve? copy = some p ∧ d.node? p = none ∧
    ∀ q, q ≠ p → d'.node? q = d.node? q

/-- A copy takes nothing from the disk. -/
theorem Copied.grows {d d' : Disk} {path copy : String} (h : d.Copied d' path copy) :
    d.Grows d' := by
  obtain ⟨p, -, hfree, hothers⟩ := h.others
  intro q n hq
  have hne : q ≠ p := by
    rintro rfl
    rw [hfree] at hq
    cases hq
  rw [hothers q hne, hq]

/-- What can be read leads to something. -/
theorem isThere_of_read? {d : Disk} {path : String} {bytes : List UInt8}
    (h : d.read? path = some bytes) : d.isThere path = true := by
  obtain ⟨mode, modified, hstat, -⟩ := read?_eq_some_iff.1 h
  rw [isThere, hstat]
  rfl

/-- On a disk that grows, paths go on leading to something. -/
theorem Grows.isThere {d d' : Disk} (h : d.Grows d') {path : String}
    (hthere : d.isThere path = true) : d'.isThere path = true := by
  obtain ⟨n, hn⟩ := Option.isSome_iff_exists.1 hthere
  rw [Disk.isThere, h.stat? hn]
  rfl

/-- A copy to a path that leads to nothing is a file with the bytes of the other one. -/
theorem copied_of_copy {d d' : Disk} {path copy : String} (h : d.copy path copy = some d')
    (hfree : d.isThere copy = false) : d.Copied d' path copy := by
  obtain ⟨p, content, mode, hread, hmode, hpath, htop, hnone, rfl⟩ := exists_of_copy h hfree
  obtain ⟨hgrows, hstat⟩ := writeAt_spec hpath htop hnone content mode
  constructor
  · exact hfree
  · exact ⟨content, hread, read?_eq_some_iff.2 ⟨_, _, hstat, hmode⟩⟩
  · refine ⟨p, hgrows.resolve? hpath fun _ target => ?_, hnone, fun q hq => ?_⟩
    · rw [node?_writeAt htop, if_pos rfl]
      nofun
    · rw [node?_writeAt htop, if_neg hq]

end Disk

namespace Backup

/-- A backup that succeeds is a copy at the path that was found free, and one that fails changes
nothing. -/
theorem make_cases (d : Disk) (path : String) :
    (∃ d', (make d path).result = (d', .ok (freePath d path)) ∧
        d.Copied d' path (freePath d path)) ∨
      ∃ failure, (make d path).result = (d, .error failure) := by
  unfold make
  dsimp only
  cases hcopy : d.copy path (freePath d path) with
  | none => exact .inr ⟨.noBackup path, rfl⟩
  | some d' => exact .inl ⟨d', rfl, Disk.copied_of_copy hcopy (freePath_spec d path).1⟩

/-- A backup that succeeds is at a path that led to nothing, and holds the content of the file. The
disk grows by it, and a backup that fails leaves the disk as it was. -/
theorem make_spec (d : Disk) (path : String) :
    d.Grows (make d path).result.1 ∧
      ((make d path).result.2.toOption = none → (make d path).result.1 = d) ∧
      ∀ copy, (make d path).result.2.toOption = some copy →
        d.isThere copy = false ∧ ∃ content, d.read? path = some content ∧
          (make d path).result.1.read? copy = some content := by
  obtain ⟨d', hmake, hcopied⟩ | ⟨failure, hmake⟩ := make_cases d path
  · rw [hmake]
    refine ⟨hcopied.grows, nofun, fun copy h => ?_⟩
    obtain rfl : freePath d path = copy := Option.some.inj h
    exact ⟨hcopied.isNew, hcopied.content⟩
  · rw [hmake]
    exact ⟨.refl d, fun _ => rfl, nofun⟩

end Backup

end TypedConfig
