import Mathlib.Data.List.Nodup
import Mathlib.Data.Prod.Lex
import Mathlib.Data.String.Basic
import TypedConfig.Proofs.Probing

/-!
# The copies of a file

A listing looks at each name in the directory of a file and keeps those of its copies, so it has
every copy once (`Backup.exists_lists`). Its order is the one of the keys `Backup.key`, which are
compared field after field, and is total.

Two different copies may have the same key, and then the order of the directory shows. This cannot
happen to names that backups get (`Backup.exists_freePath_eq_nameOf`). Such a name is taken apart
again into its date, its time and its number, whatever the name of the file is
(`Backup.Tag.rank_nameOf`), so that different names have different keys, and a listing of them is
the same for every order of the directory (`Backup.list_spec`).
-/

namespace TypedConfig

namespace Disk

/-! ## The names in a directory -/

/-- At places of their own, what stands at a place can be looked up. -/
theorem node?_eq_some_iff {d : Disk} (hnodes : (d.nodes.map Prod.fst).Nodup) {p : Place} {n : Node}
    (hp : p ≠ []) : d.node? p = some n ↔ (p, n) ∈ d.nodes := by
  unfold node?
  rw [if_neg (by simpa using hp)]
  generalize d.nodes = nodes at hnodes
  induction nodes with
  | nil => simp
  | cons a nodes ih =>
    obtain ⟨q, m⟩ := a
    obtain ⟨hq, hrest⟩ := List.nodup_cons.1 hnodes
    rw [List.lookup_cons, List.mem_cons]
    by_cases hpq : p = q
    · -- No other node stands at this place.
      have hnone : (p, n) ∉ nodes := fun hmem =>
        hq (List.mem_map.2 ⟨(p, n), hmem, hpq⟩)
      simp [hpq ▸ hnone, hpq, eq_comm]
    · have hne : (p == q) = false := beq_eq_false_iff_ne.2 hpq
      simp [hne, hpq, ih hrest]

/-- The order of the nodes does not matter. -/
theorem node?_eq_of_perm {d d' : Disk} (hnodes : (d.nodes.map Prod.fst).Nodup)
    (hperm : d'.nodes.Perm d.nodes) (p : Place) : d'.node? p = d.node? p := by
  have hnodes' : (d'.nodes.map Prod.fst).Nodup := (hperm.map Prod.fst).nodup_iff.2 hnodes
  by_cases hp : p = []
  · rw [hp]
    rfl
  · apply Option.ext
    intro n
    rw [node?_eq_some_iff hnodes' hp, node?_eq_some_iff hnodes hp, hperm.mem_iff]

/-- The name of a place in a directory, if it is in this one. -/
def nameIn? (p q : Place) : Option String :=
  if q.dropLast = p then q.getLast? else none

/-- A place has a name in the directory whose place is its own without this name. -/
theorem nameIn?_eq_some_iff {p q : Place} {name : String} :
    nameIn? p q = some name ↔ q = p ++ [name] := by
  unfold nameIn?
  constructor
  · intro h
    split at h
    · next hp =>
      obtain ⟨above, rfl⟩ := List.getLast?_eq_some_iff.1 h
      rw [List.dropLast_concat] at hp
      rw [hp]
    · cases h
  · rintro rfl
    simp

/-- The names of a directory are those at which something stands in it, each once. -/
theorem exists_list?_eq {d : Disk} {path : String} {p : Place}
    (hnodes : (d.nodes.map Prod.fst).Nodup) (hpath : d.resolve? path = some p)
    (hdirectory : d.node? p = some .directory) :
    ∃ names, d.list? path = some names ∧ names.Nodup ∧
      ∀ name, name ∈ names ↔ (d.node? (p ++ [name])).isSome := by
  have hlist : d.list? path = some ((d.nodes.map Prod.fst).filterMap (nameIn? p)) := by
    have hhere : d.isDirectoryAt p = true := by simp [isDirectoryAt, hdirectory]
    rw [list?, hpath, List.filterMap_map]
    show (if d.isDirectoryAt p then _ else none) = _
    rw [if_pos hhere]
    rfl
  refine ⟨_, hlist, hnodes.filterMap fun q q' name hq hq' => ?_, fun name => ?_⟩
  · rw [nameIn?_eq_some_iff.1 hq, nameIn?_eq_some_iff.1 hq']
  · have hne : p ++ [name] ≠ [] := List.concat_ne_nil name p
    rw [List.mem_filterMap, Option.isSome_iff_exists]
    constructor
    · rintro ⟨q, hmem, hq⟩
      obtain rfl := nameIn?_eq_some_iff.1 hq
      obtain ⟨⟨q, n⟩, hmem, heq⟩ := List.mem_map.1 hmem
      obtain rfl : q = p ++ [name] := heq
      exact ⟨n, (node?_eq_some_iff hnodes hne).2 hmem⟩
    · rintro ⟨n, hn⟩
      have hmem := (node?_eq_some_iff hnodes hne).1 hn
      exact ⟨p ++ [name], List.mem_map.2 ⟨_, hmem, rfl⟩, nameIn?_eq_some_iff.2 rfl⟩

end Disk

/-! ## Texts with first parts of one length -/

namespace Text

/-- The order of such texts is that of their first parts, and then that of the rests. -/
theorem append_lt_iff {xs ys us vs : List Char} (h : xs.length = ys.length) :
    xs ++ us < ys ++ vs ↔ xs < ys ∨ xs = ys ∧ us < vs := by
  -- The induction takes a character off both first parts, so they end together.
  induction xs generalizing ys with
  | nil =>
    obtain rfl := List.length_eq_zero_iff.1 h.symm
    simp
  | cons c xs ih =>
    cases ys with
    | nil => cases h
    | cons d ys =>
      have hrest := ih (Nat.succ.inj h)
      simp only [List.cons_append, List.cons_lt_cons_iff, hrest, List.cons.injEq]
      tauto

/-- Texts whose first parts are of one length are compared by these first. -/
theorem appendString_lt_iff {x y u v : String} (h : x.length = y.length) :
    x ++ u < y ++ v ↔ x < y ∨ x = y ∧ u < v := by
  have hlist : x.toList.length = y.toList.length := by
    rwa [String.length_toList, String.length_toList]
  rw [String.lt_iff, String.toList_append, String.toList_append, append_lt_iff hlist,
    String.toList_inj, ← String.lt_iff, ← String.lt_iff]

/-- Two texts whose first parts are of one length are the same if both parts are. -/
theorem appendString_eq_iff {x y u v : String} (h : x.length = y.length) :
    x ++ u = y ++ v ↔ x = y ∧ u = v := by
  have hlist : x.toList.length = y.toList.length := by
    rwa [String.length_toList, String.length_toList]
  rw [← String.toList_inj, String.toList_append, String.toList_append, ← String.toList_inj,
    ← String.toList_inj]
  exact ⟨fun heq => List.append_inj heq hlist, fun ⟨hx, hu⟩ => by rw [hx, hu]⟩

end Text

namespace Backup

/-! ## What is listed -/

/-- A copy of a file in its directory: a name that goes on with the mark after the name of the file,
and leads to a file. -/
structure IsCopy (d : Disk) (dir file : String) (i : Info) : Prop where
  entry : ∃ p, d.resolve? dir = some p ∧ d.node? p = some .directory ∧
    (d.node? (p ++ [i.name])).isSome
  starts : (file ++ mark).toList <+: i.name.toList
  path : i.path = Disk.join dir i.name
  /-- Links are followed, so the moment and the size are those of the file at their end. -/
  content : ∃ content mode, d.stat? i.path = some (.file content mode i.modified) ∧
    i.size = content.length

/-- The copies of a file, each once and those that were modified later first. -/
structure Lists (d : Disk) (dir file : String) (infos : List Info) : Prop where
  mem_iff (i : Info) : i ∈ infos ↔ IsCopy d dir file i
  once : (infos.map Info.name).Nodup
  newest : infos.Pairwise fun a b => b.modified.isAfter a.modified = false

/-- A listing tells something of the names that go on with the mark and lead to a file, and it tells
what the file is. -/
theorem info?_eq_some_iff {d : Disk} {dir file name : String} {i : Info} :
    info? d dir file name = some i ↔
      i.name = name ∧ (file ++ mark).toList <+: i.name.toList ∧ i.path = Disk.join dir i.name ∧
        ∃ content mode, d.stat? i.path = some (.file content mode i.modified) ∧
          i.size = content.length := by
  unfold info?
  constructor
  · intro h
    split at h
    · next hstart =>
      split at h
      · next content mode modified hstat =>
        obtain rfl := Option.some.inj h
        exact ⟨rfl, List.isPrefixOf_iff_prefix.1 hstart, rfl, content, mode, hstat, rfl⟩
      · cases h
    · cases h
  · rintro ⟨rfl, hstart, hfull, content, mode, hstat, hsize⟩
    rw [if_pos (List.isPrefixOf_iff_prefix.2 hstart), ← hfull, hstat]
    dsimp only
    rw [← hsize]

/-- A listing is what is told of the names in the directory, in order. -/
theorem list_eq {d : Disk} {path dir file : String} {names : List String}
    (hpath : splitPath? path = some (dir, file)) (hdir : d.isThere dir = true)
    (hnames : d.list? dir = some names) :
    list d path = .ok ((names.filterMap (info? d dir file)).mergeSort precedes) := by
  unfold list
  rw [hpath]
  dsimp only
  rw [if_pos hdir, hnames]

/-! ## The order of a listing -/

/-- The place of a moment among all: the given seconds come before the ticks. -/
def instant : Moment → ℕ ×ₗ ℕ
  | .second n => toLex (0, n)
  | .tick n => toLex (1, n)

/-- No two moments have one place. -/
theorem instant_inj {a b : Moment} : instant a = instant b ↔ a = b := by
  cases a <;> cases b <;> simp [instant]

/-- A moment is after another if its place is. -/
theorem isAfter_iff {a b : Moment} : a.isAfter b = true ↔ instant b < instant a := by
  cases a <;> cases b <;> simp [instant, Moment.isAfter, Prod.Lex.toLex_lt_toLex]

/-- What copies are compared by. -/
def key (i : Info) : (ℕ ×ₗ ℕ) ×ₗ String ×ₗ ℕ :=
  toLex (instant i.modified, toLex (rank i.name))

/-- Copies come in the order of what they are compared by, the greatest first. -/
theorem precedes_iff {a b : Info} : precedes a b = true ↔ key b ≤ key a := by
  unfold precedes key
  dsimp only
  -- Each branch of the comparison decides one field, and the fields before it are equal there.
  rw [Prod.Lex.toLex_le_toLex, Prod.Lex.toLex_le_toLex, instant_inj]
  split
  · next hmodified =>
    rw [hmodified]
    split
    · next hstamp => simp [hstamp]
    · next hstamp => simp [Ne.symm hstamp]
  · next hmodified => simp [Ne.symm hmodified, isAfter_iff]

/-- A sorted listing is in this order. -/
theorem pairwise_mergeSort_precedes (infos : List Info) :
    (infos.mergeSort precedes).Pairwise fun a b => key b ≤ key a := by
  have htrans (a b c : Info) (hab : precedes a b = true) (hbc : precedes b c = true) :
      precedes a c = true :=
    precedes_iff.2 ((precedes_iff.1 hbc).trans (precedes_iff.1 hab))
  have htotal (a b : Info) : (precedes a b || precedes b a) = true := by
    rw [Bool.or_eq_true, precedes_iff, precedes_iff]
    exact le_total _ _
  exact (List.pairwise_mergeSort htrans htotal infos).imp precedes_iff.1

/-- A listing holds the copies of a file, in the order of their keys. -/
theorem exists_lists {d : Disk} {path dir file : String}
    (hpath : splitPath? path = some (dir, file))
    (hdir : ∀ n, d.stat? dir = some n → n = .directory) (hnodes : (d.nodes.map Prod.fst).Nodup) :
    ∃ infos, list d path = .ok infos ∧ Lists d dir file infos ∧
      infos.Pairwise fun a b => key b ≤ key a := by
  cases hthere : d.stat? dir with
  | none =>
    -- Without the directory there are no copies.
    refine ⟨[], ?_, ⟨fun i => ⟨nofun, fun h => ?_⟩, .nil, .nil⟩, .nil⟩
    · have habsent : d.isThere dir = false := by rw [Disk.isThere, hthere]; rfl
      unfold list
      rw [hpath]
      dsimp only
      rw [habsent]
      rfl
    · obtain ⟨p, hp, hdirectory, -⟩ := h.entry
      rw [Disk.stat?, hp, Option.bind_some, hdirectory] at hthere
      cases hthere
  | some n =>
    obtain rfl := hdir n hthere
    obtain ⟨p, hp, hdirectory⟩ := Option.bind_eq_some_iff.1 hthere
    obtain ⟨names, hnames, hnodup, hmem⟩ := Disk.exists_list?_eq hnodes hp hdirectory
    have hpresent : d.isThere dir = true := by rw [Disk.isThere, hthere]; rfl
    have hsorted := pairwise_mergeSort_precedes (names.filterMap (info? d dir file))
    refine ⟨_, list_eq hpath hpresent hnames, ⟨fun i => ?_, ?_, ?_⟩, hsorted⟩
    · rw [List.mem_mergeSort, List.mem_filterMap]
      constructor
      · rintro ⟨name, hname, hinfo⟩
        obtain ⟨rfl, hstart, hfull, hcontent⟩ := info?_eq_some_iff.1 hinfo
        exact ⟨⟨p, hp, hdirectory, (hmem _).1 hname⟩, hstart, hfull, hcontent⟩
      · rintro ⟨⟨q, hq, -, hentry⟩, hstart, hfull, hcontent⟩
        obtain rfl : p = q := Option.some.inj (hp.symm.trans hq)
        exact ⟨i.name, (hmem _).2 hentry,
          info?_eq_some_iff.2 ⟨rfl, hstart, hfull, hcontent⟩⟩
    · -- What is told of a name is told under this name, so no name comes twice.
      apply ((List.mergeSort_perm _ precedes).map Info.name).nodup_iff.2
      refine List.pairwise_map.2 (List.Pairwise.filterMap _ (fun n m hne i hi j hj => ?_) hnodup)
      rwa [(info?_eq_some_iff.1 hi).1, (info?_eq_some_iff.1 hj).1]
    · refine hsorted.imp fun {a b} hab => Bool.eq_false_iff.2 fun hafter => ?_
      have hinstant := (Prod.Lex.toLex_le_toLex'.1 hab).1
      exact hinstant.not_gt (isAfter_iff.1 hafter)

/-! ## Names that backups get -/

/-- So many decimal digits. -/
def IsDigits (count : Nat) (s : String) : Prop :=
  s.length = count ∧ s.toList.all Char.isDigit = true

/-- What stands after the mark in the name of a backup: the digits of its date and its time, and a
number if it was not the first one of that second. -/
@[ext]
structure Tag where
  date : String
  time : String
  number : Option Nat
  isDigits_date : IsDigits 8 date
  isDigits_time : IsDigits 6 time
  mem_range (n : Nat) (h : number = some n) : 2 ≤ n ∧ n ≤ Numeral.word32Greatest

namespace Tag

def fields (t : Tag) : List String :=
  [t.date, t.time] ++ t.number.toList.map Numeral.ofNat

/-- The name of a backup of a file. -/
def nameOf (file : String) (t : Tag) : String :=
  file ++ mark ++ ".".intercalate t.fields

/-- Whether the first tag is the later one: of a later date, of a later time on the same date, or of
a greater number in the same second, where no number comes before all numbers. -/
def IsLater (s t : Tag) : Prop :=
  t.date < s.date ∨ t.date = s.date ∧ (t.time < s.time ∨ t.time = s.time ∧ t.number < s.number)

variable {file : String} (s t : Tag)

/-- The fields of a tag have only digits. -/
theorem isDigit_of_mem_fields {field : String} (hfield : field ∈ t.fields) {c : Char}
    (hc : c ∈ field.toList) : c.isDigit = true := by
  simp only [fields, List.cons_append, List.nil_append, List.mem_cons, List.mem_map] at hfield
  obtain rfl | rfl | ⟨n, -, rfl⟩ := hfield
  · exact List.all_eq_true.1 t.isDigits_date.2 c hc
  · exact List.all_eq_true.1 t.isDigits_time.2 c hc
  · exact Numeral.isDigit_of_mem_ofNat hc

/-- The characters of a tag are those of its fields, with dots between. -/
theorem toList_intercalate_fields :
    (".".intercalate t.fields).toList = ['.'].intercalate (t.fields.map String.toList) := by
  rw [String.toList_intercalate]
  rfl

/-- The mark does not come again later than where it was put. -/
theorem cut?_eq_none :
    Text.cut? mark.toList (mark.toList.tail ++ (".".intercalate t.fields).toList) = none := by
  have hk : 'k' ∉ (".".intercalate t.fields).toList := by
    rw [toList_intercalate_fields]
    intro hmem
    obtain hdot | ⟨part, hpart, hc⟩ := Text.mem_of_mem_intercalate hmem
    · exact absurd hdot (by decide)
    · obtain ⟨field, hfield, rfl⟩ := List.mem_map.1 hpart
      exact absurd (t.isDigit_of_mem_fields hfield hc) (by decide)
  generalize (".".intercalate t.fields).toList = text at hk ⊢
  cases hcut : Text.cut? mark.toList (mark.toList.tail ++ text) with
  | none => rfl
  | some p =>
    obtain ⟨before, after⟩ := p
    have htext := Text.eq_append_of_cut? hcut
    have hmark : mark.toList = ['.', 'b', 'a', 'c'] ++ 'k' :: ['u', 'p', '.'] := by decide
    -- The letter in the mark stands in the text later than the only one that can be meant.
    have hdrop : ('k' : Char) ∈ List.drop 4 (mark.toList.tail ++ text) := by
      rw [htext, hmark, ← List.append_assoc before, List.append_assoc _ _ after,
        List.drop_append_of_le_length (by simp)]
      simp
    rw [hmark] at hdrop
    exact absurd (by simpa using hdrop) hk

/-- A name is taken apart as it was put together. -/
theorem rank_nameOf (file : String) :
    rank (t.nameOf file) = (t.date ++ t.time, t.number.getD 1) := by
  have hstamp : String.ofList (Text.afterLast mark.toList (t.nameOf file).toList) =
      ".".intercalate t.fields := by
    rw [nameOf, String.toList_append, String.toList_append,
      Text.afterLast_append (by decide) t.cut?_eq_none, String.ofList_toList]
  -- No field holds a dot, so the dots are the ones between the fields.
  have hfields : Text.splitString '.' (".".intercalate t.fields) = t.fields := by
    rw [Text.splitString, toList_intercalate_fields, Text.splitAt_intercalate]
    · simp
    · simp [fields]
    · intro part hpart hdot
      obtain ⟨field, hfield, rfl⟩ := List.mem_map.1 hpart
      exact absurd (t.isDigit_of_mem_fields hfield hdot) (by decide)
  have hnumber : (t.fields[2]?.bind fun n =>
      Numeral.natural? 10 Numeral.word32Greatest n.toList) = t.number := by
    cases hn : t.number with
    | none => simp [fields, hn]
    | some n => simp [fields, hn, Numeral.natural?_ofNat (t.mem_range n hn).2]
  unfold rank
  rw [hstamp]
  dsimp only
  rw [hfields, hnumber]
  rfl

/-- A tag without a number ranks as the first one of its second. -/
theorem number_iff :
    (t.number = s.number ↔ t.number.getD 1 = s.number.getD 1) ∧
      (t.number < s.number ↔ t.number.getD 1 < s.number.getD 1) := by
  -- A number is two at least, so the one that stands in for a missing number lies below it.
  cases hm : t.number with
  | none =>
    cases hn : s.number with
    | none => simp
    | some n =>
      have hn2 := (s.mem_range n hn).1
      simp
      omega
  | some m =>
    have hm2 := (t.mem_range m hm).1
    cases hn : s.number with
    | none =>
      simp
      omega
    | some n => simp

variable {s t}

/-- The rank of a name tells its tag. -/
theorem rank_eq_iff : rank (t.nameOf file) = rank (s.nameOf file) ↔ t = s := by
  have hdates : t.date.length = s.date.length := t.isDigits_date.1.trans s.isDigits_date.1.symm
  rw [rank_nameOf, rank_nameOf, Prod.mk.injEq, Text.appendString_eq_iff hdates,
    ← (number_iff s t).1, Tag.ext_iff, and_assoc]

/-- Names are ranked by their tags. -/
theorem rank_lt_iff :
    toLex (rank (t.nameOf file)) < toLex (rank (s.nameOf file)) ↔ s.IsLater t := by
  have hdates : t.date.length = s.date.length := t.isDigits_date.1.trans s.isDigits_date.1.symm
  rw [rank_nameOf, rank_nameOf, Prod.Lex.toLex_lt_toLex, Text.appendString_lt_iff hdates,
    Text.appendString_eq_iff hdates, ← (number_iff s t).2, IsLater]
  tauto

end Tag

/-- What a backup is called where the local time is a date and a time in digits. -/
theorem exists_freePath_eq_nameOf {d : Disk} (hsize : d.nodes.length < 1073741824)
    {date time : String} (hdate : IsDigits 8 date) (htime : IsDigits 6 time)
    (hnow : d.now = date ++ "." ++ time) (path : String) :
    ∃ t : Tag, freePath d path = t.nameOf path := by
  have hfirst := isFirstFree_freePath d path
  cases htaken : d.isThere (path ++ mark ++ d.now) with
  | false =>
    refine ⟨⟨date, time, none, hdate, htime, nofun⟩, ?_⟩
    rw [hfirst.plain htaken, hnow]
    simp [Tag.nameOf, Tag.fields]
  | true =>
    obtain ⟨k, hk, hkend, hpath, -⟩ := hfirst.exists_index htaken
    have hgreatest : Numeral.word32Greatest = 4294967295 := rfl
    refine ⟨⟨date, time, some k, hdate, htime, fun n hn => ?_⟩, ?_⟩
    · obtain rfl := Option.some.inj hn
      omega
    · rw [hpath, hnow, numbered]
      simp [Tag.nameOf, Tag.fields, String.append_assoc]

/-! ## Listings of such names -/

/-- Whether a copy is the newer one: it was modified later, or at the same moment and has the later
tag. -/
def IsNewer (file : String) (a b : Info) : Prop :=
  a.modified.isAfter b.modified = true ∨ a.modified = b.modified ∧
    ∃ s t : Tag, a.name = s.nameOf file ∧ b.name = t.nameOf file ∧ s.IsLater t

variable {d : Disk} {dir file : String}

/-- Two copies of one rank have one name. -/
theorem name_eq_of_rank_eq {a b : Info} {s t : Tag} (ha : a.name = s.nameOf file)
    (hb : b.name = t.nameOf file) (heq : rank a.name = rank b.name) : a.name = b.name := by
  rw [ha, hb, Tag.rank_eq_iff] at heq
  rw [ha, hb, heq]

/-- Of two copies with such names, the one that is listed first is the newer one. -/
theorem isNewer_of_key_le {a b : Info} {s t : Tag} (ha : a.name = s.nameOf file)
    (hb : b.name = t.nameOf file) (hne : a.name ≠ b.name) (hle : key b ≤ key a) :
    IsNewer file a b := by
  obtain hafter | ⟨heq, hrank⟩ := Prod.Lex.toLex_le_toLex.1 hle
  · exact .inl (isAfter_iff.2 hafter)
  · -- At one moment the ranks decide, and those of different names differ.
    have hranks : rank b.name ≠ rank a.name := fun h => hne (name_eq_of_rank_eq hb ha h).symm
    have hlt : toLex (rank b.name) < toLex (rank a.name) := lt_of_le_of_ne hrank hranks
    rw [ha, hb, Tag.rank_lt_iff] at hlt
    exact .inr ⟨(instant_inj.1 heq).symm, s, t, ha, hb, hlt⟩

/-- Copies on disks with the same nodes are the same. -/
theorem isCopy_congr {d d' : Disk} (h : ∀ p, d'.node? p = d.node? p) {i : Info} :
    IsCopy d' dir file i ↔ IsCopy d dir file i := by
  have hkept {d d' : Disk} (h : ∀ p, d'.node? p = d.node? p) (hcopy : IsCopy d' dir file i) :
      IsCopy d dir file i := by
    have hways : d'.SameWays d := fun p => .inl (h p).symm
    obtain ⟨⟨p, hp, hdirectory, hentry⟩, hstarts, hpath, hcontent⟩ := hcopy
    constructor
    · rw [h p] at hdirectory
      rw [h] at hentry
      exact ⟨p, (hways.resolve?_eq dir).trans hp, hdirectory, hentry⟩
    · exact hstarts
    · exact hpath
    · rwa [Disk.stat?_eq_of_node?_eq h] at hcontent
  exact ⟨hkept h, hkept fun p => (h p).symm⟩

/-- The copies of a file are listed, each once and those that were modified later first. If all
their names are such as backups get, the newer copy comes first throughout, and the order of the
directory does not matter. -/
theorem list_spec {path : String} (hpath : splitPath? path = some (dir, file))
    (hdir : ∀ n, d.stat? dir = some n → n = .directory) (hnodes : (d.nodes.map Prod.fst).Nodup) :
    ∃ infos, list d path = .ok infos ∧ Lists d dir file infos ∧
      ((∀ i ∈ infos, ∃ t : Tag, i.name = t.nameOf file) →
        infos.Pairwise (IsNewer file) ∧
          ∀ d' : Disk, d'.nodes.Perm d.nodes → list d' path = .ok infos) := by
  obtain ⟨infos, hlist, hlists, hsorted⟩ := exists_lists hpath hdir hnodes
  refine ⟨infos, hlist, hlists, fun htags => ⟨?_, fun d' hperm => ?_⟩⟩
  · -- The order of the keys is strict, because no name comes twice.
    have hboth := hsorted.and (List.pairwise_map.1 hlists.once)
    refine hboth.imp_of_mem fun {a b} ha hb h => ?_
    obtain ⟨s, hs⟩ := htags a ha
    obtain ⟨t, ht⟩ := htags b hb
    exact isNewer_of_key_le hs ht h.2 h.1
  · have hnode := Disk.node?_eq_of_perm hnodes hperm
    have hdir' (n : Node) (hn : d'.stat? dir = some n) : n = .directory :=
      hdir n ((Disk.stat?_eq_of_node?_eq hnode dir).symm.trans hn)
    have hnodes' : (d'.nodes.map Prod.fst).Nodup := (hperm.map Prod.fst).nodup_iff.2 hnodes
    obtain ⟨infos', hlist', hlists', hsorted'⟩ := exists_lists hpath hdir' hnodes'
    have hmem (i : Info) : i ∈ infos' ↔ i ∈ infos :=
      (hlists'.mem_iff i).trans ((isCopy_congr hnode).trans (hlists.mem_iff i).symm)
    have hsame : infos'.Perm infos :=
      (List.perm_ext_iff_of_nodup hlists'.once.of_map hlists.once.of_map).2 hmem
    -- Two lists of the same copies in the order of their keys are equal, as no two keys are.
    rw [hlist', hsame.eq_of_pairwise (fun a b ha hb hab hba => ?_) hsorted' hsorted]
    have ha := (hmem a).1 ha
    obtain ⟨s, hs⟩ := htags a ha
    obtain ⟨t, ht⟩ := htags b hb
    have hrank : rank a.name = rank b.name := (Prod.mk.inj (hba.antisymm hab)).2
    exact List.inj_on_of_nodup_map hlists.once ha hb (name_eq_of_rank_eq hs ht hrank)

/-- A file that has the mark in its own name, with copies from one moment, one of which is a link,
and with a file that is no copy of it. -/
def crowdedDisk : Disk where
  nodes := [(["cfg"], .directory), (["cfg", "a.backup.b"], .file [0x0a] 0o644 (.second 7)),
    (["cfg", "a.backup.20240101.120000.3"], .file [] 0o644 (.second 7)),
    (["cfg", "a.backup.b.backup.20240101.120000.10"], .file [] 0o644 (.second 7)),
    (["cfg", "a.backup.b.backup.20240101.120000.2"], .link "/cfg/a.backup.b"),
    (["cfg", "a.backup.b.backup.20240101.120000"], .file [] 0o644 (.second 7))]

/-- Its copies in their order. -/
def crowdedCopies : List Info :=
  [⟨"a.backup.b.backup.20240101.120000.10", "/cfg/a.backup.b.backup.20240101.120000.10",
      .second 7, 0⟩,
    ⟨"a.backup.b.backup.20240101.120000.2", "/cfg/a.backup.b.backup.20240101.120000.2",
      .second 7, 1⟩,
    ⟨"a.backup.b.backup.20240101.120000", "/cfg/a.backup.b.backup.20240101.120000", .second 7, 0⟩]

/-- The path is taken apart at its last slash. -/
theorem splitPath?_crowdedDisk : splitPath? "/cfg/a.backup.b" = some ("/cfg", "a.backup.b") := by
  decide +kernel

/-- The copies on the disk are listed. -/
theorem list_crowdedDisk : list crowdedDisk "/cfg/a.backup.b" = .ok crowdedCopies := by
  have hthere : crowdedDisk.isThere "/cfg" = true := by decide +kernel
  have hnames : crowdedDisk.list? "/cfg" = some ("a.backup.b" :: "a.backup.20240101.120000.3" ::
      crowdedCopies.map Info.name) := by decide +kernel
  have hinfos : ("a.backup.b" :: "a.backup.20240101.120000.3" ::
      crowdedCopies.map Info.name).filterMap (info? crowdedDisk "/cfg" "a.backup.b") =
      crowdedCopies := by decide +kernel
  have hranks : crowdedCopies.map (rank ·.name) =
      [("20240101120000", 10), ("20240101120000", 2), ("20240101120000", 1)] := by decide +kernel
  have hsorted : crowdedCopies.Pairwise fun a b => precedes a b = true := by
    simp only [crowdedCopies, List.map_cons, List.map_nil, List.cons.injEq] at hranks
    simp [crowdedCopies, precedes, hranks]
  rw [list_eq splitPath?_crowdedDisk hthere hnames, hinfos, List.mergeSort_of_pairwise hsorted]

/-- The tags of its copies. -/
def crowdedTag (number : Option Nat)
    (h : ∀ n, number = some n → 2 ≤ n ∧ n ≤ Numeral.word32Greatest) : Tag where
  date := "20240101"
  time := "120000"
  number := number
  isDigits_date := ⟨by decide +kernel, by decide +kernel⟩
  isDigits_time := ⟨by decide +kernel, by decide +kernel⟩
  mem_range := h

/-- Each of them has the name of a copy. -/
theorem exists_tag_crowdedCopies :
    ∀ i ∈ crowdedCopies, ∃ t : Tag, i.name = t.nameOf "a.backup.b" := by
  intro i hi
  simp only [crowdedCopies, List.mem_cons, List.not_mem_nil, or_false] at hi
  obtain rfl | rfl | rfl := hi
  · exact ⟨crowdedTag (some 10) (by decide), by decide +kernel⟩
  · exact ⟨crowdedTag (some 2) (by decide), by decide +kernel⟩
  · exact ⟨crowdedTag none nofun, by decide +kernel⟩

/-- The numbers are compared as numbers, and the copy without one is the last. -/
theorem list_spec_crowdedDisk :
    splitPath? "/cfg/a.backup.b" = some ("/cfg", "a.backup.b") ∧
      (∀ n, crowdedDisk.stat? "/cfg" = some n → n = .directory) ∧
      (crowdedDisk.nodes.map Prod.fst).Nodup ∧
      list crowdedDisk "/cfg/a.backup.b" = .ok crowdedCopies ∧
      Lists crowdedDisk "/cfg" "a.backup.b" crowdedCopies ∧
      crowdedCopies.Pairwise (IsNewer "a.backup.b") ∧
      ∀ d' : Disk, d'.nodes.Perm crowdedDisk.nodes →
        list d' "/cfg/a.backup.b" = .ok crowdedCopies := by
  have hpath := splitPath?_crowdedDisk
  have hdir (n : Node) (hn : crowdedDisk.stat? "/cfg" = some n) : n = .directory := by
    have hstat : crowdedDisk.stat? "/cfg" = some .directory := by decide +kernel
    exact Option.some.inj (hn.symm.trans hstat)
  have hnodes : (crowdedDisk.nodes.map Prod.fst).Nodup := by decide +kernel
  obtain ⟨infos, hlist, hlists, hrest⟩ := list_spec hpath hdir hnodes
  obtain rfl : infos = crowdedCopies := Except.ok.inj (hlist.symm.trans list_crowdedDisk)
  obtain ⟨hnewer, hsame⟩ := hrest exists_tag_crowdedCopies
  exact ⟨hpath, hdir, hnodes, hlist, hlists, hnewer, hsame⟩

end Backup

end TypedConfig
