import TypedConfig.Proofs.Backups

/-!
# The search for a free path, and backups in a row

The path of a backup is found by looking at one candidate after the other until one leads to
nothing. As the engine does it, without a bound on the attempts, this is the relation
`Backup.Probes`: it holds of a path if the search ends there and its counter has not left the
numbers of 32 bits. The search always ends, at the path that is free with the least number
(`Backup.probes_freePath`), because each number leads to a place of its own and a disk has finitely
many.

A backup then adds one file and changes nothing else (`Backup.make_cases`). So whatever was made
before remains, and the next copy gets another name: a row of backups is one induction over what a
single one adds (`Backup.makeEach_spec`).
-/

namespace TypedConfig

namespace Backup

/-! ## The search -/

/-- The search for a free path from a candidate on, with the number of the next candidate: it ends
at the first one that leads to nothing. The counter has 32 bits, one of them for the sign. -/
inductive Probes (d : Disk) (base : String) : String → Nat → String → Prop
  | free {candidate : String} {index : Nat} (h : d.isThere candidate = false) :
      Probes d base candidate index candidate
  | taken {candidate path : String} {index : Nat} (h : d.isThere candidate = true)
      (hindex : (index : Int) + 1 ≤ Numeral.int32Greatest)
      (next : Probes d base (numbered base index) (index + 1) path) :
      Probes d base candidate index path

/-- A path without a number, or else with the least one from two on, that leads to nothing. -/
structure IsFirstFree (d : Disk) (base path : String) : Prop where
  isFree : d.isThere path = false
  plain : d.isThere base = false → path = base
  least : d.isThere base = true → ∃ k, 2 ≤ k ∧ path = numbered base k ∧
    ∀ i, 2 ≤ i → i < k → d.isThere (numbered base i) = true

/-- The path for a backup is the first free one. -/
theorem isFirstFree_freePath (d : Disk) (path : String) :
    IsFirstFree d (path ++ mark ++ d.now) (freePath d path) := by
  obtain ⟨hfree, hplain | ⟨k, hk, hpath, htaken, hbefore⟩⟩ := freePath_spec d path
  · refine ⟨hfree, fun _ => hplain, fun htaken => ?_⟩
    rw [← hplain, hfree] at htaken
    cases htaken
  · refine ⟨hfree, fun hbase => ?_, fun _ => ⟨k, hk, hpath, hbefore⟩⟩
    rw [htaken] at hbase
    cases hbase

variable {d : Disk} {base path : String}

/-- The search has one end only. -/
theorem Probes.unique {candidate other : String} {index : Nat}
    (h : Probes d base candidate index path) (hother : Probes d base candidate index other) :
    path = other := by
  induction h with
  | free hfree =>
    cases hother with
    | free _ => rfl
    | taken htaken =>
      rw [hfree] at htaken
      cases htaken
  | taken htaken _ _ ih =>
    cases hother with
    | free hfree =>
      rw [hfree] at htaken
      cases htaken
    | taken _ _ next => exact ih next

/-- The search passes by the numbers that are taken, and ends at the first one that is not. -/
theorem probes_numbered {start k : Nat} (hfree : d.isThere (numbered base k) = false)
    (hk : (k : Int) + 1 ≤ Numeral.int32Greatest) (hstart : start ≤ k)
    (htaken : ∀ i, start ≤ i → i < k → d.isThere (numbered base i) = true) :
    Probes d base (numbered base start) (start + 1) (numbered base k) := by
  -- The induction is on how many numbers are left before the free one.
  induction hn : k - start generalizing start with
  | zero =>
    have heq : start = k := by omega
    rw [heq]
    exact .free hfree
  | succ n ih =>
    have hlt : start < k := by omega
    apply Probes.taken
    · exact htaken start (Nat.le_refl _) hlt
    · push_cast
      omega
    · exact ih (by omega) (fun i hi => htaken i (by omega)) (by omega)

/-- A free number is not passed by, so the first one is at most one more than there are nodes. -/
theorem IsFirstFree.exists_index (h : IsFirstFree d base path) (htaken : d.isThere base = true) :
    ∃ k, 2 ≤ k ∧ k ≤ d.nodes.length + 2 ∧ path = numbered base k ∧
      ∀ i, 2 ≤ i → i < k → d.isThere (numbered base i) = true := by
  obtain ⟨k, hk, hpath, hbefore⟩ := h.least htaken
  obtain ⟨j, hj, hjend, hjfree⟩ := exists_free d base
  have hkj : k ≤ j := by
    by_contra hlt
    have htaken := hbefore j hj (by omega)
    rw [hjfree] at htaken
    cases htaken
  exact ⟨k, hk, by omega, hpath, hbefore⟩

/-- The search for the path of a backup ends, and the counter is large enough for it. -/
theorem probes_freePath (hsize : d.nodes.length < 1073741824) (path : String) :
    Probes d (path ++ mark ++ d.now) (path ++ mark ++ d.now) 2 (freePath d path) := by
  have hfirst := isFirstFree_freePath d path
  generalize path ++ mark ++ d.now = base at hfirst ⊢
  cases hbase : d.isThere base with
  | false =>
    rw [hfirst.plain hbase]
    exact .free hbase
  | true =>
    obtain ⟨k, hk, hkend, hpath, hbefore⟩ := hfirst.exists_index hbase
    have hgreatest : Numeral.int32Greatest = 2147483647 := rfl
    have hfree := hfirst.isFree
    rw [hpath] at hfree ⊢
    apply Probes.taken hbase
    · rw [hgreatest]
      decide
    · exact probes_numbered hfree (by omega) hk hbefore

/-! ## Backups in a row -/

/-- Backups of a file one after the other, each at its own time. -/
def makeEach (path : String) : List String → Disk → Traced (Disk × List (Except Failure String))
  | [], d => pure (d, [])
  | time :: times, d => do
    let (d, answer) ← make { d with now := time } path
    let (d, answers) ← makeEach path times d
    pure (d, answer :: answers)

/-- The paths of the backups that succeeded. -/
def copiesOf (answers : List (Except Failure String)) : List String :=
  answers.filterMap Except.toOption

/-- What a row of backups leaves: whatever there was before, and one copy more for each that has
succeeded, under a name of its own. -/
structure KeepsAll (d d' : Disk) (path : String) (copies : List String) : Prop where
  grows : d.Grows d'
  distinct : copies.Nodup
  isNew : ∀ copy ∈ copies, d.isThere copy = false
  content : ∀ copy ∈ copies, ∃ bytes, d.read? path = some bytes ∧ d'.read? copy = some bytes

/-- No backups leave the disk as it is. -/
theorem keepsAll_nil (d : Disk) (path : String) : KeepsAll d d path [] where
  grows := .refl d
  distinct := List.nodup_nil
  isNew := nofun
  content := nofun

/-- One more backup in front: the later ones find its copy there. -/
theorem KeepsAll.cons {d d' d'' : Disk} {path copy : String} {copies : List String}
    (h : d.Copied d' path copy) (hrest : KeepsAll d' d'' path copies) :
    KeepsAll d d'' path (copy :: copies) where
  grows p n hp := hrest.grows p n (h.grows p n hp)
  distinct := by
    obtain ⟨bytes, -, hcopy⟩ := h.content
    refine List.nodup_cons.2 ⟨fun hmem => ?_, hrest.distinct⟩
    have hnew := hrest.isNew copy hmem
    rw [Disk.isThere_of_read? hcopy] at hnew
    cases hnew
  isNew := by
    intro other hother
    rcases List.mem_cons.1 hother with rfl | hother
    · exact h.isNew
    · by_contra hthere
      have hnew := hrest.isNew other hother
      rw [h.grows.isThere (Bool.not_eq_false _ ▸ hthere)] at hnew
      cases hnew
  content := by
    obtain ⟨bytes, hread, hcopy⟩ := h.content
    intro other hother
    rcases List.mem_cons.1 hother with rfl | hother
    · exact ⟨bytes, hread, hrest.grows.read? hcopy⟩
    · obtain ⟨bytes', hread', hcopy'⟩ := hrest.content other hother
      -- The file itself has not changed on the way.
      rw [h.grows.read? hread] at hread'
      obtain rfl := Option.some.inj hread'
      exact ⟨bytes, hread, hcopy'⟩

/-- The local time has no part in what a row of backups keeps. -/
theorem KeepsAll.of_nodes {d₀ d d' : Disk} {path : String} {copies : List String}
    (hnodes : d₀.nodes = d.nodes) (h : KeepsAll d₀ d' path copies) : KeepsAll d d' path copies := by
  have hnode (p : Place) : d₀.node? p = d.node? p := by rw [Disk.node?, Disk.node?, hnodes]
  have hstat (other : String) := Disk.stat?_eq_of_node?_eq hnode other
  constructor
  · intro p n hp
    exact h.grows p n ((hnode p).trans hp)
  · exact h.distinct
  · intro copy hcopy
    have hnew := h.isNew copy hcopy
    rwa [Disk.isThere, hstat copy] at hnew
  · intro copy hcopy
    obtain ⟨bytes, hread, hcopied⟩ := h.content copy hcopy
    rw [Disk.read?, Disk.open?, hstat path] at hread
    exact ⟨bytes, hread, hcopied⟩

/-- Backups in a row keep all that there was and each other. -/
theorem makeEach_spec (path : String) (times : List String) (d : Disk) :
    KeepsAll d (makeEach path times d).result.1 path
      (copiesOf (makeEach path times d).result.2) := by
  induction times generalizing d with
  | nil => exact keepsAll_nil d path
  | cons time times ih =>
    have hnodes : { d with now := time }.nodes = d.nodes := rfl
    apply KeepsAll.of_nodes hnodes
    rw [makeEach]
    simp only [Traced.result_bind, Traced.result_pure]
    obtain ⟨d', hmake, hcopied⟩ | ⟨failure, hmake⟩ := make_cases { d with now := time } path
    · rw [hmake]
      exact .cons hcopied (ih d')
    · rw [hmake]
      exact ih _

/-! ## A file and its copies -/

/-- Backups of a file overwrite nothing. -/
structure OverwritesNothing (d : Disk) (path : String) : Prop where
  /-- The search ends at this path and at no other. -/
  search (candidate : String) :
    Probes d (path ++ mark ++ d.now) (path ++ mark ++ d.now) 2 candidate ↔
      candidate = freePath d path
  first : IsFirstFree d (path ++ mark ++ d.now) (freePath d path)
  ok (d' : Disk) (copy : String) (h : (make d path).result = (d', .ok copy)) :
    copy = freePath d path ∧ d.Copied d' path copy
  error (d' : Disk) (failure : Failure) (h : (make d path).result = (d', .error failure)) : d' = d
  /-- More backups, at whatever times, leave each copy that was made. -/
  row (times : List String) :
    KeepsAll d (makeEach path times d).result.1 path (copiesOf (makeEach path times d).result.2)

/-- On a disk of fewer than `2 ^ 30` nodes the search ends before its counter does. -/
theorem overwritesNothing {d : Disk} (hsize : d.nodes.length < 1073741824) (path : String) :
    OverwritesNothing d path := by
  have hsearch := probes_freePath hsize path
  constructor
  · intro candidate
    constructor
    · exact fun h => h.unique hsearch
    · rintro rfl
      exact hsearch
  · exact isFirstFree_freePath d path
  · intro d' copy h
    obtain ⟨d'', hmake, hcopied⟩ | ⟨failure, hmake⟩ := make_cases d path
    · rw [hmake] at h
      obtain ⟨rfl, hcopy⟩ := Prod.mk.inj h
      obtain rfl := Except.ok.inj hcopy
      exact ⟨rfl, hcopied⟩
    · rw [hmake] at h
      cases h
  · intro d' failure h
    obtain ⟨d'', hmake, -⟩ | ⟨failure', hmake⟩ := make_cases d path
    · rw [hmake] at h
      cases h
    · rw [hmake] at h
      exact (Prod.mk.inj h).1.symm
  · exact fun times => makeEach_spec path times d

/-- A file of which there is a copy from this second. -/
def copiedOnce : Disk where
  nodes := [(["cfg"], .directory), (["cfg", "app.conf"], .file [0x23, 0x0a] 0o644 (.second 7)),
    (["cfg", "app.conf.backup.20240101.120000"], .file [0x0a] 0o644 (.second 7))]
  now := "20240101.120000"

/-- Two more backups in the same second get the numbers two and three. -/
theorem overwritesNothing_copiedOnce :
    copiedOnce.nodes.length < 1073741824 ∧ OverwritesNothing copiedOnce "/cfg/app.conf" ∧
      copiesOf (makeEach "/cfg/app.conf" [copiedOnce.now, copiedOnce.now] copiedOnce).result.2 =
        ["/cfg/app.conf.backup.20240101.120000.2", "/cfg/app.conf.backup.20240101.120000.3"] :=
  ⟨by decide, overwritesNothing (d := copiedOnce) (by decide) "/cfg/app.conf", by decide +kernel⟩

end Backup

end TypedConfig
