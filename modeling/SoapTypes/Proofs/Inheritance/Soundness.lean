import Mathlib.Logic.Relation
import SoapTypes.Proofs.FirstMember
import SoapTypes.Proofs.Inheritance.Lineage
import SoapTypes.Schema.Validity

/-!
# What validation decides

Validation is compared with the declarations themselves. It reports the first type whose base is
not declared, or else the first type whose lineage repeats a name, together with that lineage up
to the repetition, and it accepts every other schema. If names are declared once, a repetition is
a cycle of the declared bases.
-/

namespace SoapTypes.Schema

/-- A type extends a name that no complex type has. -/
def LacksBase (s : Schema) (t : ComplexType) : Prop :=
  ∃ base, t.base = some base ∧ ∀ u ∈ s.complexTypes, u.name ≠ base

/-- The lineage of a type meets some name twice. -/
def RepeatsName (s : Schema) (t : ComplexType) : Prop :=
  ∃ i j name, i < j ∧ s.lineage t.name t.base i = some name ∧ s.lineage t.name t.base j = some name

/-- A path is the lineage of a type, cut right after the first name that it meets again. -/
def CircularPath (s : Schema) (t : ComplexType) (path : List String) : Prop :=
  ∃ names name, path = names ++ [name] ∧ names.Nodup ∧ name ∈ names ∧
    ∀ k < path.length, s.lineage t.name t.base k = path[k]?

/-- A declaration of a name gives it the base. Unlike `Extends` this looks at all declarations. -/
def DeclaresBase (s : Schema) (name base : String) : Prop :=
  ∃ t ∈ s.complexTypes, t.name = name ∧ t.base = some base

/-- The error of an undeclared base names the type and its base. -/
theorem undeclaredBase?_eq_some_iff {s : Schema} {t : ComplexType} {e : Error} :
    undeclaredBase? s.index t = some e ↔
      ∃ base, t.base = some base ∧ (∀ u ∈ s.complexTypes, u.name ≠ base) ∧
        e = .undeclaredBase t.name base := by
  simp only [undeclaredBase?, Option.bind_eq_some_iff]
  constructor
  · rintro ⟨base, hbase, hif⟩
    by_cases hdeclared : s.index.contains base = true
    · rw [if_pos hdeclared] at hif
      cases hif
    · rw [if_neg hdeclared, Option.some.injEq] at hif
      refine ⟨base, hbase, fun u hu hname => hdeclared ?_, hif.symm⟩
      exact (s.contains_index_iff base).2 ⟨u, hu, hname⟩
  · rintro ⟨base, hbase, hno, rfl⟩
    refine ⟨base, hbase, if_neg fun hdeclared => ?_⟩
    obtain ⟨u, hu, hname⟩ := (s.contains_index_iff base).1 hdeclared
    exact hno u hu hname

theorem lacksBase_iff (s : Schema) (t : ComplexType) :
    s.LacksBase t ↔ ∃ e, undeclaredBase? s.index t = some e := by
  simp only [undeclaredBase?_eq_some_iff, LacksBase]
  constructor
  · rintro ⟨base, hbase, hno⟩
    exact ⟨_, base, hbase, hno, rfl⟩
  · rintro ⟨_, base, hbase, hno, rfl⟩
    exact ⟨base, hbase, hno⟩

/-- The error of a circle holds the one path that `CircularPath` describes. -/
theorem circularBase?_eq_some_iff {s : Schema} {t : ComplexType} {e : Error} :
    circularBase? s.index t = some e ↔ ∃ path, s.CircularPath t path ∧ e = .circularBase path := by
  have htrace := s.traces_climb t.name t.base
  have hstops := (s.climbs_climb [t.name] t.name t.base).stops
  simp only [circularBase?, Option.map_eq_some_iff]
  constructor
  · rintro ⟨name, hname, rfl⟩
    rw [hname] at hstops
    refine ⟨_, ⟨_, name, rfl, htrace.distinct, htrace.stops name hstops, fun k hk => ?_⟩, by simp⟩
    rw [List.length_append, List.length_singleton, Nat.lt_succ_iff] at hk
    rcases Nat.lt_or_eq_of_le hk with hk | rfl
    · rw [List.getElem?_append_left hk, htrace.follows k hk]
    · simpa using hstops
  · rintro ⟨_, ⟨names, name, rfl, hdistinct, hmem, hfollows⟩, rfl⟩
    have hnext : s.lineage t.name t.base names.length = some name := by
      rw [hfollows _ (by simp)]
      simp
    have hnames : s.Traces t.name t.base names := by
      refine ⟨fun k hk => ?_, hdistinct, fun n hn => ?_⟩
      · rw [hfollows k (by simp; omega), List.getElem?_append_left hk]
      · rw [hnext, Option.some.injEq] at hn
        exact hn ▸ hmem
    obtain rfl := htrace.unique hnames
    exact ⟨name, hstops.symm.trans hnext, by simp⟩

theorem repeatsName_iff (s : Schema) (t : ComplexType) :
    s.RepeatsName t ↔ ∃ e, circularBase? s.index t = some e := by
  rw [RepeatsName, (s.traces_climb t.name t.base).repeats_iff, List.length_cons,
    (s.climbs_climb [t.name] t.name t.base).stops]
  simp [circularBase?]

/-- Validation fails with the error that `unsoundness?` finds and only with that. -/
theorem validate_result_eq_error_iff {s : Schema} {e : Error} :
    s.validate.result = .error e ↔ s.unsoundness? = some e := by
  unfold validate
  cases s.unsoundness? with
  | none => simp
  | some e' => simp

theorem validate_result_eq_ok_iff {s : Schema} :
    s.validate.result = .ok () ↔ s.unsoundness? = none := by
  unfold validate
  cases s.unsoundness? with
  | none => simp
  | some e => simp

/-- No base is undeclared exactly if no type is given the error of an undeclared one. -/
theorem findSome?_undeclaredBase?_eq_none_iff (s : Schema) :
    s.complexTypes.findSome? (undeclaredBase? s.index) = none ↔
      ∀ t ∈ s.complexTypes, ¬ s.LacksBase t :=
  findSome?_eq_none_iff_forall fun t _ => s.lacksBase_iff t

theorem validate_undeclaredBase_iff {s : Schema} {name base : String} :
    s.validate.result = .error (.undeclaredBase name base) ↔
      ∃ t, FirstOf s.LacksBase s.complexTypes t ∧ t.name = name ∧ t.base = some base := by
  rw [validate_result_eq_error_iff, unsoundness?, Option.or_eq_some_iff,
    findSome?_eq_some_iff_firstOf fun t _ => s.lacksBase_iff t]
  constructor
  · rintro (⟨t, hfirst, herror⟩ | ⟨-, hcircular⟩)
    · obtain ⟨base', hbase, -, he⟩ := undeclaredBase?_eq_some_iff.1 herror
      injection he with hname hbase'
      exact ⟨t, hfirst, hname.symm, by rw [hbase, hbase']⟩
    · obtain ⟨t, -, herror⟩ := List.exists_of_findSome?_eq_some hcircular
      obtain ⟨path, -, he⟩ := circularBase?_eq_some_iff.1 herror
      cases he
  · rintro ⟨t, hfirst, rfl, hbase⟩
    obtain ⟨base', hbase', hno⟩ := hfirst.holds
    obtain rfl : base = base' := Option.some.inj (hbase.symm.trans hbase')
    exact Or.inl ⟨t, hfirst, undeclaredBase?_eq_some_iff.2 ⟨base, hbase, hno, rfl⟩⟩

theorem validate_circularBase_iff {s : Schema} {path : List String} :
    s.validate.result = .error (.circularBase path) ↔
      (∀ t ∈ s.complexTypes, ¬ s.LacksBase t) ∧
        ∃ t, FirstOf s.RepeatsName s.complexTypes t ∧ s.CircularPath t path := by
  rw [validate_result_eq_error_iff, unsoundness?, Option.or_eq_some_iff,
    findSome?_undeclaredBase?_eq_none_iff,
    findSome?_eq_some_iff_firstOf fun t _ => s.repeatsName_iff t]
  constructor
  · rintro (hundeclared | ⟨hbases, t, hfirst, herror⟩)
    · obtain ⟨t, -, herror⟩ := List.exists_of_findSome?_eq_some hundeclared
      obtain ⟨base, -, -, he⟩ := undeclaredBase?_eq_some_iff.1 herror
      cases he
    · obtain ⟨path', hpath, he⟩ := circularBase?_eq_some_iff.1 herror
      injection he with he
      exact ⟨hbases, t, hfirst, he ▸ hpath⟩
  · rintro ⟨hbases, t, hfirst, hpath⟩
    exact Or.inr ⟨hbases, t, hfirst, circularBase?_eq_some_iff.2 ⟨path, hpath, rfl⟩⟩

example : (validate ⟨[], [⟨"C", some "A", []⟩, ⟨"A", some "B", []⟩, ⟨"B", some "A", []⟩]⟩).result =
    .error (.circularBase ["C", "A", "B", "A"]) := by decide +kernel

/-- An undeclared base is reported exactly if there is one. -/
theorem exists_undeclaredBase_iff {s : Schema} :
    (∃ name base, s.validate.result = .error (.undeclaredBase name base)) ↔
      ∃ t ∈ s.complexTypes, s.LacksBase t := by
  simp only [validate_undeclaredBase_iff]
  constructor
  · rintro ⟨_, _, t, hfirst, -⟩
    exact ⟨t, hfirst.mem, hfirst.holds⟩
  · intro hlacks
    obtain ⟨t, hfirst⟩ := exists_firstOf_iff.2 hlacks
    obtain ⟨base, hbase, -⟩ := hfirst.holds
    exact ⟨t.name, base, t, hfirst, rfl, hbase⟩

/-- A circle is reported exactly if no base is undeclared and some lineage repeats a name. -/
theorem exists_circularBase_iff {s : Schema} :
    (∃ path, s.validate.result = .error (.circularBase path)) ↔
      (∀ t ∈ s.complexTypes, ¬ s.LacksBase t) ∧ ∃ t ∈ s.complexTypes, s.RepeatsName t := by
  simp only [validate_circularBase_iff, exists_and_left]
  refine and_congr_right fun _ => ⟨?_, fun hrepeats => ?_⟩
  · rintro ⟨_, t, hfirst, -⟩
    exact ⟨t, hfirst.mem, hfirst.holds⟩
  · obtain ⟨t, hfirst⟩ := exists_firstOf_iff.2 hrepeats
    obtain ⟨e, he⟩ := (s.repeatsName_iff t).1 hfirst.holds
    obtain ⟨path, hpath, -⟩ := circularBase?_eq_some_iff.1 he
    exact ⟨path, t, hfirst, hpath⟩

theorem validate_ok_iff {s : Schema} :
    s.validate.result = .ok () ↔
      (∀ t ∈ s.complexTypes, ¬ s.LacksBase t) ∧ ∀ t ∈ s.complexTypes, ¬ s.RepeatsName t := by
  rw [validate_result_eq_ok_iff, unsoundness?, Option.or_eq_none_iff,
    findSome?_undeclaredBase?_eq_none_iff,
    findSome?_eq_none_iff_forall fun t _ => s.repeatsName_iff t]

/-- Among distinct names each type is the first declaration of its name. -/
theorem complexType?_name_of_nodup {s : Schema} (hdistinct : (s.complexTypes.map (·.name)).Nodup)
    {t : ComplexType} (ht : t ∈ s.complexTypes) : s.complexType? t.name = some t := by
  obtain ⟨u, hmem, hname, hu⟩ := exists_complexType?_of_mem ht
  rw [hu, List.inj_on_of_nodup_map hdistinct hmem ht hname]

/-- Among distinct names a base is declared for a name exactly if the name extends it. -/
theorem declaresBase_iff_extends {s : Schema} (hdistinct : (s.complexTypes.map (·.name)).Nodup)
    {name base : String} : s.DeclaresBase name base ↔ s.Extends name base := by
  constructor
  · rintro ⟨t, ht, rfl, hbase⟩
    rw [Extends, baseOf, complexType?_name_of_nodup hdistinct ht]
    exact hbase
  · exact Extends.exists_declaration

/-- On a cycle of bases each name is met again: the lineage of the declaration that the cycle
starts from repeats its own name. -/
theorem exists_repeatsName_of_transGen {s : Schema} {name : String}
    (hcycle : Relation.TransGen s.Extends name name) : ∃ t ∈ s.complexTypes, s.RepeatsName t := by
  obtain ⟨base, hextends, hreach⟩ := Relation.TransGen.head'_iff.1 hcycle
  obtain ⟨k, hk⟩ := reflTransGen_extends_iff.1 hreach
  obtain ⟨t, ht, rfl, hbase⟩ := hextends.exists_declaration
  refine ⟨t, ht, 0, k + 1, t.name, Nat.succ_pos k, rfl, ?_⟩
  rw [hbase, lineage_succ, hk]

/-- Among distinct names some lineage repeats a name exactly if the declared bases run in a
cycle: the repetition closes one, and on a cycle each name is met again. -/
theorem exists_repeatsName_iff {s : Schema} (hdistinct : (s.complexTypes.map (·.name)).Nodup) :
    (∃ t ∈ s.complexTypes, s.RepeatsName t) ↔
      ∃ name, Relation.TransGen s.DeclaresBase name name := by
  have hrelation : s.DeclaresBase = s.Extends := by
    funext name base
    exact propext (declaresBase_iff_extends hdistinct)
  rw [hrelation]
  constructor
  · rintro ⟨t, ht, i, j, name, hij, hi, hj⟩
    have hbase : t.base = s.baseOf t.name := by
      rw [baseOf, complexType?_name_of_nodup hdistinct ht, Option.bind_some]
    rw [hbase] at hi hj
    exact ⟨name, transGen_extends_of_lineage hij hi hj⟩
  · rintro ⟨name, hcycle⟩
    exact exists_repeatsName_of_transGen hcycle

/-- **What validation decides.** It reports an undeclared base exactly if there is one, and then
the first. Otherwise it reports a circle exactly if the lineage of some type repeats a name, and
then the path of the first such type, whose names an arrow joins in the message. Otherwise it
accepts. If names are distinct and bases declared, a circle is a cycle of the declared bases. -/
theorem validate_result_iff (s : Schema) :
    ((∃ name base, s.validate.result = .error (.undeclaredBase name base)) ↔
      ∃ t ∈ s.complexTypes, s.LacksBase t) ∧
    (∀ name base, s.validate.result = .error (.undeclaredBase name base) ↔
      ∃ t, FirstOf s.LacksBase s.complexTypes t ∧ t.name = name ∧ t.base = some base) ∧
    ((∃ path, s.validate.result = .error (.circularBase path)) ↔
      (∀ t ∈ s.complexTypes, ¬ s.LacksBase t) ∧ ∃ t ∈ s.complexTypes, s.RepeatsName t) ∧
    (∀ path, s.validate.result = .error (.circularBase path) ↔
      (∀ t ∈ s.complexTypes, ¬ s.LacksBase t) ∧
        ∃ t, FirstOf s.RepeatsName s.complexTypes t ∧ s.CircularPath t path) ∧
    (∀ path, (Error.circularBase path).message =
      "circular type reference detected: " ++ " -> ".intercalate path) ∧
    (s.validate.result = .ok () ↔
      (∀ t ∈ s.complexTypes, ¬ s.LacksBase t) ∧ ∀ t ∈ s.complexTypes, ¬ s.RepeatsName t) ∧
    ((s.complexTypes.map (·.name)).Nodup → (∀ t ∈ s.complexTypes, ¬ s.LacksBase t) →
      ((∃ path, s.validate.result = .error (.circularBase path)) ↔
        ∃ name, Relation.TransGen s.DeclaresBase name name)) := by
  refine ⟨exists_undeclaredBase_iff, fun _ _ => validate_undeclaredBase_iff,
    exists_circularBase_iff, fun _ => validate_circularBase_iff, fun _ => rfl, validate_ok_iff, ?_⟩
  intro hdistinct hbases
  rw [exists_circularBase_iff, exists_repeatsName_iff hdistinct]
  exact and_iff_right hbases

/-- A type whose base starts a circle of two without being on it. -/
def tailIntoCircle : Schema :=
  ⟨[], [⟨"C", some "A", []⟩, ⟨"A", some "B", []⟩, ⟨"B", some "A", []⟩]⟩

/-- The cycle of the declared bases makes the circle known, as `validate_result_iff` says. -/
theorem tailIntoCircle_circular :
    (tailIntoCircle.complexTypes.map (·.name)).Nodup ∧
      (∀ t ∈ tailIntoCircle.complexTypes, ¬ tailIntoCircle.LacksBase t) ∧
      ∃ path, tailIntoCircle.validate.result = .error (.circularBase path) := by
  have hdistinct : (tailIntoCircle.complexTypes.map (·.name)).Nodup := by decide
  have hbases : ∀ t ∈ tailIntoCircle.complexTypes, ¬ tailIntoCircle.LacksBase t := by
    simp [tailIntoCircle, LacksBase]
  have hup : tailIntoCircle.DeclaresBase "A" "B" :=
    ⟨⟨"A", some "B", []⟩, by simp [tailIntoCircle], rfl, rfl⟩
  have hback : tailIntoCircle.DeclaresBase "B" "A" :=
    ⟨⟨"B", some "A", []⟩, by simp [tailIntoCircle], rfl, rfl⟩
  obtain ⟨-, -, -, -, -, -, hcycle⟩ := validate_result_iff tailIntoCircle
  exact ⟨hdistinct, hbases, (hcycle hdistinct hbases).2 ⟨"A", .tail (.single hup) hback⟩⟩

end SoapTypes.Schema
