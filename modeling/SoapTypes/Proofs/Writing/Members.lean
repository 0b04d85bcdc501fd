import SoapTypes.Proofs.Inheritance.Soundness
import SoapTypes.Proofs.Writing.Faithful
import SoapTypes.Proofs.Writing.Roster

/-!
# Members of rosters

The constant list of a roster holds a name once for each declaration of the name, so it holds one
twice if a type is declared twice. Which names it holds is decided by the first declarations: the
list is closed under their extensions, but a later declaration of a name need not be listed where it
extends something that is.
-/

namespace SoapTypes

open TypeScript Text

/-- The names in the constant list of the roster of a root, as they are read from its text. -/
def Schema.Lists (s : Schema) (root : String) (names : List String) : Prop :=
  ∃ r union, (s.roster root).result = .ok r ∧
    RosterReads (capitalize root ++ "Type") (decapitalize root ++ "Types") (unlines r.lines) union
      names

namespace Schema

variable {s : Schema} {root : String}

/-- The list holds the names of the family and can be read in no other way. -/
theorem lists_iff {names : List String} :
    s.Lists root names ↔ names = (s.family root).map (·.name) := by
  have hreads := rosterReads_lines_iff (.ofFamily root (s.family root))
  constructor
  · rintro ⟨r, union, hr, hnames⟩
    obtain rfl := Except.ok.inj hr
    exact ((hreads _ _).1 hnames).2
  · rintro rfl
    exact ⟨_, _, rfl, (hreads _ _).2 ⟨rfl, rfl⟩⟩

/-- A first declaration that extends a member of the family gives its own name to the family. -/
theorem mem_family_of_first {t : ComplexType} {base : String}
    (hfirst : s.complexType? t.name = some t) (hbase : t.base = some base)
    (hmem : base ∈ (s.family root).map (·.name)) : t.name ∈ (s.family root).map (·.name) := by
  have hextends : s.Extends t.name base := by
    rw [Extends, baseOf, hfirst, Option.bind_some, hbase]
  exact mem_family_of_extends hextends hmem

/-- The family is free of repetitions exactly if none of its names is declared twice. -/
theorem nodup_map_name_family_iff :
    ((s.family root).map (·.name)).Nodup ↔
      ∀ name ∈ (s.family root).map (·.name), (s.complexTypes.map (·.name)).count name = 1 := by
  rw [List.nodup_iff_count_eq_one]
  exact forall₂_congr fun name hname => by rw [count_map_name_family hname]

end Schema

/-- An interface has an `extends` clause exactly if its type has a base, which it names with a
capital. -/
theorem ComplexType.base_interface {t : ComplexType} {i : Interface} (h : t.interface = .ok i) :
    i.base = t.base.map capitalize := by
  obtain ⟨_, -, rfl⟩ := ComplexType.interface_eq_ok_iff.1 h
  rfl

/-- **Members of a roster.** The list of a declared root has one reading. It holds each of its names
as often as complex types of the name are declared, so it is free of repetitions exactly if none of
them is declared twice. Its names are the root and those whose first declarations extend the root or
a name in the list. If all names of complex types are different, the list is free of repetitions and
holds the name of every complex type that extends the root or a name in the list. What a type
extends is what the `extends` clause of its interface names with a capital. -/
theorem members_of_roster (s : Schema) (root : String)
    (hroot : ∃ t ∈ s.complexTypes, t.name = root) :
    ∃ names, (∀ listed, s.Lists root listed ↔ listed = names) ∧
      (∀ name ∈ names, names.count name = (s.complexTypes.map (·.name)).count name) ∧
      (names.Nodup ↔ ∀ name ∈ names, (s.complexTypes.map (·.name)).count name = 1) ∧
      (∀ name, name ∈ names ↔
        name = root ∨ ∃ base, s.Extends name base ∧ (base = root ∨ base ∈ names)) ∧
      (∀ t base, s.complexType? t.name = some t → t.base = some base →
        base = root ∨ base ∈ names → t.name ∈ names) ∧
      ((s.complexTypes.map (·.name)).Nodup → names.Nodup ∧
        ∀ t ∈ s.complexTypes, ∀ base, t.base = some base → base = root ∨ base ∈ names →
          t.name ∈ names) ∧
      ∀ t ∈ s.complexTypes, ∀ i, t.interface = .ok i → i.base = t.base.map capitalize := by
  -- the root is listed itself, so it need not be told apart from the other names
  have hself : ∀ base, (base = root ∨ base ∈ (s.family root).map (·.name)) ↔
      base ∈ (s.family root).map (·.name) := by
    intro base
    rw [or_iff_right_iff_imp]
    rintro rfl
    exact Schema.root_mem_family hroot
  refine ⟨(s.family root).map (·.name), fun _ => Schema.lists_iff,
    fun _ => Schema.count_map_name_family, Schema.nodup_map_name_family_iff, ?_, ?_, ?_,
    fun _ _ _ => ComplexType.base_interface⟩
  · simp only [hself]
    exact fun _ => Schema.mem_map_name_family_iff_extends hroot
  · simp only [hself]
    exact fun _ _ => Schema.mem_family_of_first
  · simp only [hself]
    refine fun hdistinct => ⟨?_, fun t ht _ => ?_⟩
    · rw [Schema.map_name_family hroot]
      exact hdistinct.filter _
    · exact Schema.mem_family_of_first (Schema.complexType?_name_of_nodup hdistinct ht)

/-- A root that is declared twice, and a type that extends it in its second declaration only. -/
def repeatedRoot : Schema :=
  ⟨[], [⟨"A", none, []⟩, ⟨"A", none, []⟩, ⟨"B", none, []⟩, ⟨"B", some "A", []⟩]⟩

theorem exists_root_repeatedRoot : ∃ t ∈ repeatedRoot.complexTypes, t.name = "A" :=
  ⟨_, .head _, rfl⟩

theorem not_extends_repeatedRoot {base : String} : ¬ repeatedRoot.Extends "B" base := by
  simp [Schema.Extends, Schema.baseOf, Schema.complexType?, repeatedRoot]

/-- The list of the root holds it twice and does not hold the other type, as `members_of_roster`
says. -/
theorem repeatedRoot_members :
    (∃ t ∈ repeatedRoot.complexTypes, t.name = "A") ∧
      ∃ names, repeatedRoot.Lists "A" names ∧ names.count "A" = 2 ∧ "B" ∉ names := by
  obtain ⟨names, hlists, hcount, -, hmem, -⟩ :=
    members_of_roster repeatedRoot "A" exists_root_repeatedRoot
  refine ⟨exists_root_repeatedRoot, names, (hlists names).2 rfl,
    hcount "A" ((hmem "A").2 (.inl rfl)), fun hB => ?_⟩
  rcases (hmem "B").1 hB with hroot | ⟨base, hextends, -⟩
  · simp at hroot
  · exact not_extends_repeatedRoot hextends

theorem validate_repeatedRoot : repeatedRoot.validate.result = .ok () := by
  decide +kernel

/-- So the list of a sound schema may hold a name twice, and may lack the name of a type whose
interface is written as extending the root. -/
theorem not_forall_lists :
    (¬ ∀ (s : Schema) (root : String) (names : List String), s.validate.result = .ok () →
      (∃ t ∈ s.complexTypes, t.name = root) → s.Lists root names → names.Nodup) ∧
    ¬ ∀ (s : Schema) (root : String) (names : List String), s.validate.result = .ok () →
      (∃ t ∈ s.complexTypes, t.name = root) → s.Lists root names →
        ∀ t ∈ s.complexTypes, ∀ i base, t.interface = .ok i → i.base = some (capitalize base) →
          t.base = some base → base = root ∨ base ∈ names → t.name ∈ names := by
  constructor
  · intro h
    have hnodup := h repeatedRoot "A" _ validate_repeatedRoot exists_root_repeatedRoot
      (Schema.lists_iff.2 rfl)
    have hone := Schema.nodup_map_name_family_iff.1 hnodup "A"
      (Schema.root_mem_family exists_root_repeatedRoot)
    simp [repeatedRoot] at hone
  · intro h
    have hB := h repeatedRoot "A" _ validate_repeatedRoot exists_root_repeatedRoot
      (Schema.lists_iff.2 rfl) ⟨"B", some "A", []⟩ (by simp [repeatedRoot]) _ "A" rfl rfl rfl
      (.inl rfl)
    rcases (Schema.mem_map_name_family_iff_extends exists_root_repeatedRoot).1 hB with
      hroot | ⟨base, hextends, -⟩
    · simp at hroot
    · exact not_extends_repeatedRoot hextends

end SoapTypes
