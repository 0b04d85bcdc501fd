import Mathlib.Data.Finset.Card
import SoapTypes.Proofs.Inheritance.Lineage

/-!
# Ancestors

The ancestors of a name are the longest walk along the bases that meets no name twice. Cutting the
walk at a repetition loses nothing: a name descends from another exactly if that one is reached by
steps from a name to the base of its first declaration, on circular declarations too.
-/

namespace SoapTypes.Schema

/-- A list of names is the longest walk along the bases from a name on that meets no name twice. -/
structure LongestAscent (s : Schema) (name : String) (names : List String) : Prop where
  distinct : (name :: names).Nodup
  steps : (name :: names).IsChain s.Extends
  /-- The walk stops only at a name that is undeclared or has no base, or before one it has met. -/
  stops : s.complexType? (names.getLastD name) = none ∨
    ∃ t, s.complexType? (names.getLastD name) = some t ∧
      (t.base = none ∨ ∃ base ∈ name :: names, t.base = some base)

/-- A walk that meets no name twice lists the lineage. -/
theorem lineage_eq_getElem?_of_isChain {s : Schema} {name : String} {names : List String}
    (hsteps : (name :: names).IsChain s.Extends) :
    ∀ k < (name :: names).length, s.lineage name (s.baseOf name) k = (name :: names)[k]? := by
  intro k hk
  induction k with
  | zero => rfl
  | succ k ih =>
    rw [lineage_baseOf_succ, ih (by omega), List.getElem?_eq_getElem (by omega),
      List.getElem?_eq_getElem hk]
    exact List.isChain_iff_getElem.1 hsteps k hk

/-- Where a walk ends, the lineage goes on with the base of its last name. -/
theorem lineage_succ_length {s : Schema} {name : String} {names : List String}
    (hfollows : ∀ k < (name :: names).length,
      s.lineage name (s.baseOf name) k = (name :: names)[k]?) :
    s.lineage name (s.baseOf name) (name :: names).length = s.baseOf (names.getLastD name) := by
  have hlast : (name :: names)[names.length]? = some (names.getLastD name) := by
    rw [List.getElem?_eq_getElem (by simp), ← List.getLast_eq_getLastD (List.cons_ne_nil _ _),
      List.getLast_eq_getElem]
    simp
  rw [List.length_cons, lineage_baseOf_succ, hfollows _ (by simp), hlast, Option.bind_some]

/-- The longest walk without a repetition is the trace of the lineage. -/
theorem longestAscent_iff_traces {s : Schema} {name : String} {names : List String} :
    s.LongestAscent name names ↔ s.Traces name (s.baseOf name) (name :: names) := by
  constructor
  · intro h
    have hfollows := lineage_eq_getElem?_of_isChain h.steps
    refine ⟨hfollows, h.distinct, fun n hn => ?_⟩
    rw [lineage_succ_length hfollows] at hn
    obtain ⟨t, ht, htn⟩ := Option.bind_eq_some_iff.1 hn
    rcases h.stops with hnone | ⟨u, hu, hstop⟩
    · rw [hnone] at ht
      cases ht
    · obtain rfl : u = t := Option.some.inj (hu.symm.trans ht)
      rcases hstop with hnone | ⟨base, hmem, hbase⟩
      · rw [hnone] at htn
        cases htn
      · rwa [← Option.some.inj (hbase.symm.trans htn)]
  · intro h
    refine ⟨h.distinct, List.isChain_iff_getElem.2 fun k hk => ?_, ?_⟩
    · have hnext := h.follows (k + 1) hk
      rw [lineage_baseOf_succ, h.follows k (by omega), List.getElem?_eq_getElem hk,
        List.getElem?_eq_getElem (by omega)] at hnext
      exact hnext
    · cases ht : s.complexType? (names.getLastD name) with
      | none => exact Or.inl rfl
      | some t =>
        refine Or.inr ⟨t, rfl, ?_⟩
        cases hbase : t.base with
        | none => exact Or.inl rfl
        | some base =>
          have hlast : s.baseOf (names.getLastD name) = some base := by
            rw [baseOf, ht, Option.bind_some, hbase]
          exact Or.inr ⟨base, h.stops base ((lineage_succ_length h.follows).trans hlast), rfl⟩

/-- The ancestors of a name trace its lineage. -/
theorem traces_ancestors (s : Schema) (name : String) :
    s.Traces name (s.baseOf name) (name :: s.index.ancestors name) := by
  rw [TypeIndex.ancestors, baseOf_index]
  exact s.traces_climb name (s.baseOf name)

/-- A trace is closed under steps: what a name of it extends belongs to it. -/
theorem Traces.mem_of_extends {s : Schema} {name a b : String} {names : List String}
    (h : s.Traces name (s.baseOf name) names) (ha : a ∈ names) (hextends : s.Extends a b) :
    b ∈ names := by
  obtain ⟨k, hk, rfl⟩ := List.mem_iff_getElem.1 ha
  have hnext : s.lineage name (s.baseOf name) (k + 1) = some b := by
    rw [lineage_baseOf_succ, h.follows k hk, List.getElem?_eq_getElem hk]
    exact hextends
  by_cases hlast : k + 1 < names.length
  · rw [h.follows _ hlast] at hnext
    exact List.mem_of_getElem? hnext
  · have hlength : k + 1 = names.length := by omega
    rw [hlength] at hnext
    exact h.stops b hnext

/-- A trace holds exactly the names that are reached: what is cut off has been met before. -/
theorem Traces.mem_iff_reflTransGen {s : Schema} {name root : String} {names : List String}
    (h : s.Traces name (s.baseOf name) names) :
    root ∈ names ↔ Relation.ReflTransGen s.Extends name root := by
  constructor
  · intro hroot
    obtain ⟨k, hk, rfl⟩ := List.mem_iff_getElem.1 hroot
    exact reflTransGen_extends_iff.2 ⟨k, by rw [h.follows k hk, List.getElem?_eq_getElem hk]⟩
  · intro hreach
    induction hreach with
    | refl =>
      by_cases hpos : 0 < names.length
      · exact List.mem_of_getElem? (h.follows 0 hpos).symm
      · exact h.stops name (by rw [Nat.eq_zero_of_not_pos hpos]; rfl)
    | tail _ hextends ih => exact h.mem_of_extends ih hextends

/-- A name descends from another exactly if it is that name or has it among its ancestors. -/
theorem descendsFrom_iff_mem (i : TypeIndex) (name root : String) :
    i.descendsFrom name root = true ↔ root ∈ name :: i.ancestors name := by
  rw [TypeIndex.descendsFrom, Bool.or_eq_true, beq_iff_eq, List.contains_iff_mem, List.mem_cons,
    eq_comm]

/-- A name descends from another exactly if that one is reached from it. -/
theorem descendsFrom_iff_reflTransGen {s : Schema} {name root : String} :
    s.index.descendsFrom name root = true ↔ Relation.ReflTransGen s.Extends name root := by
  rw [descendsFrom_iff_mem, (s.traces_ancestors name).mem_iff_reflTransGen]

/-- All names of a walk but the last one are declared, so the walk is no longer than there are
names. -/
theorem LongestAscent.length_le {s : Schema} {name : String} {names : List String}
    (h : s.LongestAscent name names) :
    names.length ≤ (s.complexTypes.map (·.name)).toFinset.card := by
  have hdistinct : (name :: names).dropLast.Nodup := h.distinct.sublist (List.dropLast_sublist _)
  have hlength : (name :: names).dropLast.length = names.length := by simp
  rw [← hlength, ← List.toFinset_card_of_nodup hdistinct]
  apply Finset.card_le_card
  intro n hn
  obtain ⟨k, hk, rfl⟩ := List.mem_iff_getElem.1 (List.mem_toFinset.1 hn)
  have hk' : k + 1 < (name :: names).length := by simp at hk ⊢; omega
  have hextends := List.isChain_iff_getElem.1 h.steps k hk'
  obtain ⟨t, ht, hname, -⟩ := hextends.exists_declaration
  rw [List.mem_toFinset, List.getElem_dropLast]
  exact List.mem_map.2 ⟨t, ht, hname⟩

/-- **Ancestors on any declarations.** A name descends from a root exactly if the root is reached
from it by steps from a name to the base of its first declaration. The ancestors of a name are the
one longest walk of such steps that meets no name twice, and there are at most as many of them as
distinct names of complex types. -/
theorem ancestors_longestAscent (s : Schema) (name root : String) :
    (s.index.descendsFrom name root = true ↔ Relation.ReflTransGen s.Extends name root) ∧
    (∀ names, s.LongestAscent name names ↔ names = s.index.ancestors name) ∧
    (s.index.ancestors name).length ≤ (s.complexTypes.map (·.name)).toFinset.card := by
  have htrace := s.traces_ancestors name
  refine ⟨descendsFrom_iff_reflTransGen, fun names => ⟨fun h => ?_, ?_⟩,
    (longestAscent_iff_traces.2 htrace).length_le⟩
  · exact (List.cons.inj ((longestAscent_iff_traces.1 h).unique htrace)).2
  · rintro rfl
    exact longestAscent_iff_traces.2 htrace

end SoapTypes.Schema
