import TypedConfig.Text.Cut

/-!
# Addresses of options

An option is addressed by the dotted path `file.section.option`. Only the first two dots separate
the levels, so an option's name may hold dots and the other two names may not, if the path is to
lead back to them (`Address.ofPath?_path`). The other way round, an address that comes of a path
leads back to it (`Address.path_of_ofPath?`).
-/

namespace TypedConfig

/-- The three names on the way to an option. -/
structure Address where
  file : String
  sectionName : String
  option : String
  deriving Repr, DecidableEq

namespace Address

/-- The dotted path. -/
def path (a : Address) : String :=
  a.file ++ "." ++ a.sectionName ++ "." ++ a.option

/-- The address that a dotted path gives, if it has two dots. -/
def ofPath? (path : String) : Option Address := do
  let (file, rest) ← Text.cutString? "." path
  let (sectionName, option) ← Text.cutString? "." rest
  return ⟨file, sectionName, option⟩

/-- A path leads back to its address, unless a dot in one of the first two names comes between. -/
theorem ofPath?_path {a : Address} (hfile : '.' ∉ a.file.toList)
    (hsection : '.' ∉ a.sectionName.toList) : ofPath? a.path = some a := by
  have cut {name : String} (h : '.' ∉ name.toList) (rest : String) :
      Text.cutString? "." (name ++ "." ++ rest) = some (name, rest) := by
    have hdot : ".".toList = ['.'] := rfl
    simp only [Text.cutString?, String.toList_append, hdot, List.append_assoc,
      List.singleton_append, Text.cut?_singleton_append h, Option.map_some, String.ofList_toList]
  have hpath : a.path = a.file ++ "." ++ (a.sectionName ++ "." ++ a.option) := by
    simp only [path, String.append_assoc]
  simp [ofPath?, hpath, cut hfile, cut hsection]

/-- An address that a path gives has that path, and no dot in its first two names. -/
theorem path_of_ofPath? {path : String} {a : Address} (h : ofPath? path = some a) :
    a.path = path ∧ '.' ∉ a.file.toList ∧ '.' ∉ a.sectionName.toList := by
  have cut {text name rest : String} (h : Text.cutString? "." text = some (name, rest)) :
      name ++ "." ++ rest = text ∧ '.' ∉ name.toList := by
    refine ⟨(Text.eq_append_of_cutString? h).symm, ?_⟩
    obtain ⟨⟨before, after⟩, hcut, heq⟩ := Option.map_eq_some_iff.1 h
    obtain ⟨rfl, rfl⟩ := Prod.mk.inj heq
    rw [String.toList_ofList]
    exact Text.not_mem_of_cut?_singleton hcut
  simp only [ofPath?, Option.bind_eq_bind, Option.bind_eq_some_iff, Prod.exists] at h
  obtain ⟨file, rest, hfirst, sectionName, option, hsecond, ha⟩ := h
  obtain rfl := Option.some.inj ha
  obtain ⟨hpath, hfile⟩ := cut hfirst
  obtain ⟨hrest, hsection⟩ := cut hsecond
  refine ⟨?_, hfile, hsection⟩
  calc file ++ "." ++ sectionName ++ "." ++ option
      = file ++ "." ++ (sectionName ++ "." ++ option) := by simp only [String.append_assoc]
    _ = path := by rw [hrest, hpath]

/-- In a section the path tells the option. -/
theorem option_eq_of_path_eq {file sectionName m n : String}
    (h : path ⟨file, sectionName, m⟩ = path ⟨file, sectionName, n⟩) : m = n := by
  have hlist := congrArg String.toList h
  simp only [path, String.toList_append, List.append_cancel_left_eq] at hlist
  exact String.toList_inj.1 hlist

/-- Where no dot in the first two names comes between, the path tells the address. -/
theorem eq_of_path_eq {a b : Address} (hfile : '.' ∉ a.file.toList)
    (hsection : '.' ∉ a.sectionName.toList) (hfile' : '.' ∉ b.file.toList)
    (hsection' : '.' ∉ b.sectionName.toList) (h : a.path = b.path) : a = b := by
  have hpath := ofPath?_path hfile hsection
  rw [h, ofPath?_path hfile' hsection'] at hpath
  exact (Option.some.inj hpath).symm

end Address

end TypedConfig
