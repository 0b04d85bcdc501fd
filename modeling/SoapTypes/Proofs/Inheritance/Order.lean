import SoapTypes.Proofs.Inheritance.Ancestors
import SoapTypes.Proofs.Inheritance.Soundness

/-!
# The order of sound schemas

On a schema that validation accepts, descent is a partial order in which what lies above a name is
a chain. The walk upwards from a declared name is never cut short: it meets no name twice and no
undeclared base, and it ends in a type that extends nothing.
-/

namespace SoapTypes.Schema

open Relation

variable {s : Schema}

/-- A sound schema has no cycle of bases: the declaration that a cycle starts from would repeat
its own name. -/
theorem not_transGen_extends_self (h : s.validate.result = .ok ()) (name : String) :
    ¬ TransGen s.Extends name name := by
  intro hcycle
  obtain ⟨t, ht, hrepeats⟩ := exists_repeatsName_of_transGen hcycle
  exact (validate_ok_iff.1 h).2 t ht hrepeats

/-- On a sound schema the base of a type is declared. -/
theorem exists_declaration_of_base (h : s.validate.result = .ok ()) {t : ComplexType}
    (ht : t ∈ s.complexTypes) {base : String} (hbase : t.base = some base) :
    ∃ u ∈ s.complexTypes, u.name = base := by
  by_contra hno
  exact (validate_ok_iff.1 h).1 t ht ⟨base, hbase, fun u hu hname => hno ⟨u, hu, hname⟩⟩

/-- So is what a name extends. -/
theorem exists_declaration_of_extends (h : s.validate.result = .ok ()) {name base : String}
    (hextends : s.Extends name base) : ∃ t ∈ s.complexTypes, t.name = base := by
  obtain ⟨t, ht, -, hbase⟩ := hextends.exists_declaration
  exact exists_declaration_of_base h ht hbase

/-- Two names that descend from each other are the same. -/
theorem reflTransGen_extends_antisymm (h : s.validate.result = .ok ()) {a b : String}
    (hab : ReflTransGen s.Extends a b) (hba : ReflTransGen s.Extends b a) : a = b := by
  rcases reflTransGen_iff_eq_or_transGen.1 hab with heq | htrans
  · exact heq.symm
  · exact absurd (htrans.trans_left hba) (not_transGen_extends_self h a)

/-- Two names above a third one lie one above the other, since a name extends at most one. -/
theorem reflTransGen_extends_total {name a b : String} (ha : ReflTransGen s.Extends name a)
    (hb : ReflTransGen s.Extends name b) :
    ReflTransGen s.Extends a b ∨ ReflTransGen s.Extends b a := by
  refine ReflTransGen.total_of_right_unique (fun n b c hb hc => ?_) ha hb
  exact Option.some.inj (hb.symm.trans hc)

/-- The lineage of a name ends behind its ancestors: if it went on it would repeat a name. -/
theorem lineage_length_ancestors (h : s.validate.result = .ok ()) (name : String) :
    s.lineage name (s.baseOf name) (name :: s.index.ancestors name).length = none := by
  rw [Option.eq_none_iff_forall_ne_some]
  intro n hn
  obtain ⟨i, j, m, hij, hi, hj⟩ := (s.traces_ancestors name).repeats_iff.2 ⟨n, hn⟩
  exact not_transGen_extends_self h m (transGen_extends_of_lineage hij hi hj)

/-- The climb from a name never stops before a name that it has met. -/
theorem repeated_climb (h : s.validate.result = .ok ()) (name : String) :
    (s.index.climb [name] (s.index.baseOf name)).repeated = none := by
  rw [← (s.climbs_climb [name] name (s.index.baseOf name)).stops, baseOf_index]
  have hends := lineage_length_ancestors h name
  rwa [List.length_cons, TypeIndex.ancestors, baseOf_index] at hends

/-- The list holds the names above a declared name, each the base of the one before, up to a type
that extends nothing. -/
structure CompleteAscent (s : Schema) (name : String) (names : List String) : Prop where
  members : ∀ n, n ∈ names ↔ n ≠ name ∧ s.index.descendsFrom name n = true
  nearestFirst : (name :: names).IsChain s.Extends
  declared : ∀ n ∈ names, ∃ t ∈ s.complexTypes, t.name = n
  ends : ∃ t, s.complexType? (names.getLastD name) = some t ∧ t.base = none
  empty_iff : names = [] ↔ s.baseOf name = none

/-- What lies above a declared name is declared. -/
theorem exists_declaration_of_reflTransGen (h : s.validate.result = .ok ()) {name n : String}
    (hname : ∃ t ∈ s.complexTypes, t.name = name) (hn : ReflTransGen s.Extends name n) :
    ∃ t ∈ s.complexTypes, t.name = n := by
  rcases hn.cases_tail with rfl | ⟨m, -, hextends⟩
  · exact hname
  · exact exists_declaration_of_extends h hextends

/-- The ancestors of a declared name are all there are. -/
theorem completeAscent_ancestors (h : s.validate.result = .ok ()) {name : String}
    (hname : ∃ t ∈ s.complexTypes, t.name = name) :
    s.CompleteAscent name (s.index.ancestors name) := by
  have htrace := s.traces_ancestors name
  have hascent := longestAscent_iff_traces.2 htrace
  have hreach {n : String} (hn : n ∈ name :: s.index.ancestors name) :
      ∃ t ∈ s.complexTypes, t.name = n :=
    exists_declaration_of_reflTransGen h hname (htrace.mem_iff_reflTransGen.1 hn)
  have hends := lineage_length_ancestors h name
  rw [lineage_succ_length htrace.follows] at hends
  refine ⟨fun n => ?_, hascent.steps, fun n hn => hreach (List.mem_cons_of_mem name hn), ?_, ?_⟩
  · rw [descendsFrom_iff_mem, List.mem_cons]
    constructor
    · intro hn
      refine ⟨?_, Or.inr hn⟩
      rintro rfl
      exact (List.nodup_cons.1 hascent.distinct).1 hn
    · rintro ⟨hne, heq | hn⟩
      · exact absurd heq hne
      · exact hn
  · obtain ⟨u, hu, hlast⟩ := hreach List.getLastD_mem_cons
    obtain ⟨t, -, -, ht⟩ := exists_complexType?_of_mem hu
    rw [hlast] at ht
    rw [baseOf, ht, Option.bind_some] at hends
    exact ⟨t, ht, hends⟩
  · constructor
    · intro hempty
      rwa [hempty] at hends
    · intro hbase
      cases hnames : s.index.ancestors name with
      | nil => rfl
      | cons base names =>
        have hsteps := hascent.steps
        rw [hnames, List.isChain_cons_cons] at hsteps
        rw [Extends, hbase] at hsteps
        cases hsteps.1

/-- **The order of a sound schema.** Descent is reflexive, transitive and antisymmetric, and the
names above a name are comparable. A climb never stops before a name that it has met, and the
ancestors of a declared name are all names above it, up to a type without a base. -/
theorem descendsFrom_order (s : Schema) (h : s.validate.result = .ok ()) :
    (∀ a, s.index.descendsFrom a a = true) ∧
    (∀ a b c, s.index.descendsFrom a b = true → s.index.descendsFrom b c = true →
      s.index.descendsFrom a c = true) ∧
    (∀ a b, s.index.descendsFrom a b = true → s.index.descendsFrom b a = true → a = b) ∧
    (∀ name a b, s.index.descendsFrom name a = true → s.index.descendsFrom name b = true →
      s.index.descendsFrom a b = true ∨ s.index.descendsFrom b a = true) ∧
    (∀ name, (s.index.climb [name] (s.index.baseOf name)).repeated = none) ∧
    (∀ name, (∃ t ∈ s.complexTypes, t.name = name) →
      s.CompleteAscent name (s.index.ancestors name)) := by
  simp only [descendsFrom_iff_reflTransGen]
  exact ⟨fun _ => .refl, fun _ _ _ hab hbc => hab.trans hbc,
    fun _ _ hab hba => reflTransGen_extends_antisymm h hab hba,
    fun _ _ _ ha hb => reflTransGen_extends_total ha hb, repeated_climb h,
    fun _ hname => completeAscent_ancestors h hname⟩

/-- Three generations, the youngest of which is declared a second time, with another base. -/
def threeGenerations : Schema :=
  ⟨[], [⟨"C", some "B", []⟩, ⟨"A", none, []⟩, ⟨"B", some "A", []⟩, ⟨"C", some "A", []⟩]⟩

/-- The conclusions of `descendsFrom_order` for the youngest of three generations. -/
theorem threeGenerations_order :
    threeGenerations.validate.result = .ok () ∧
      threeGenerations.index.ancestors "C" = ["B", "A"] ∧
      threeGenerations.CompleteAscent "C" (threeGenerations.index.ancestors "C") ∧
      (threeGenerations.index.descendsFrom "B" "A" = true ∨
        threeGenerations.index.descendsFrom "A" "B" = true) := by
  have hvalid : threeGenerations.validate.result = .ok () := by decide +kernel
  have hB : threeGenerations.index.descendsFrom "C" "B" = true := by decide +kernel
  have hA : threeGenerations.index.descendsFrom "C" "A" = true := by decide +kernel
  obtain ⟨-, -, -, htotal, -, hascent⟩ := descendsFrom_order threeGenerations hvalid
  refine ⟨hvalid, by decide +kernel, hascent "C" ?_, htotal "C" "B" "A" hB hA⟩
  exact ⟨⟨"C", some "B", []⟩, by simp [threeGenerations], rfl⟩

end SoapTypes.Schema
