import Std.Data.TreeMap
import SoapTypes.Schema.Basic

/-!
# Bases and ancestors

An index finds the first complex type of a name. On it a type's bases are followed upwards:
the climb ends at a type without a base, at a base that is not declared, or before a name that
it has met already, so it ends on circular declarations too.
-/

namespace SoapTypes

/-- The complex types of a schema by name. -/
structure TypeIndex where
  byName : Std.TreeMap String ComplexType

/-- The index of a schema, in which the first declaration of a name stands for the name. -/
def Schema.index (s : Schema) : TypeIndex :=
  ⟨s.complexTypes.foldl (fun m t => m.insertIfNew t.name t) ∅⟩

/-- Where a climb along the bases led. -/
structure Climb where
  /-- The names met, the nearest first. -/
  chain : List String
  /-- The name at which the climb stopped since it had met it already. -/
  repeated : Option String
  deriving DecidableEq, Repr

namespace TypeIndex

/-- The first complex type of a name. -/
def get? (i : TypeIndex) (name : String) : Option ComplexType :=
  i.byName[name]?

/-- Whether a complex type of the name is declared. -/
def contains (i : TypeIndex) (name : String) : Bool :=
  i.byName.contains name

/-- The base of the first complex type of a name. -/
def baseOf (i : TypeIndex) (name : String) : Option String :=
  (i.get? name).bind (·.base)

/-- The names not met yet grow fewer when a declared one of them is met. -/
theorem length_unmet_lt {names seen : List String} {n : String} (hn : n ∈ names)
    (hseen : n ∉ seen) :
    (names.filter (· ∉ n :: seen)).length < (names.filter (· ∉ seen)).length := by
  have hsplit : names.filter (· ∉ n :: seen) = (names.filter (· ∉ seen)).filter (· ≠ n) := by
    rw [List.filter_filter]
    congr 1
    funext x
    simp
  rw [hsplit, List.length_filter_lt_length_iff_exists]
  exact ⟨n, by simp [hn, hseen], by simp⟩

theorem mem_keys_of_get?_eq_some {i : TypeIndex} {n : String} {t : ComplexType}
    (h : i.get? n = some t) : n ∈ i.byName.keys := by
  rw [Std.TreeMap.mem_keys, Std.TreeMap.mem_iff_isSome_getElem?]
  exact Option.isSome_iff_exists.2 ⟨t, h⟩

/-- Follows the bases upwards from `base`, where the names in `seen` have been met. -/
def climb (i : TypeIndex) (seen : List String) (base : Option String) : Climb :=
  match base with
  | none => ⟨[], none⟩
  | some b =>
    if _hb : b ∈ seen then ⟨[], some b⟩
    else
      match _ht : i.get? b with
      | none => ⟨[b], none⟩
      | some t =>
        let above := i.climb (b :: seen) t.base
        ⟨b :: above.chain, above.repeated⟩
termination_by (i.byName.keys.filter (· ∉ seen)).length
decreasing_by exact length_unmet_lt (mem_keys_of_get?_eq_some _ht) _hb

/-- The ancestors of a name, the nearest first. -/
def ancestors (i : TypeIndex) (name : String) : List String :=
  (i.climb [name] (i.baseOf name)).chain

/-- Whether a name is the given root or has it among its ancestors. -/
def descendsFrom (i : TypeIndex) (name root : String) : Bool :=
  name == root || (i.ancestors name).contains root

end TypeIndex

namespace Schema

/-- The complex types that are the root or descend from it, in the order of the schema. A root
that is not declared has no family. -/
def family (s : Schema) (root : String) : List ComplexType :=
  let index := s.index
  if index.contains root then
    s.complexTypes.filter fun t => index.descendsFrom t.name root
  else
    []

end Schema

end SoapTypes
