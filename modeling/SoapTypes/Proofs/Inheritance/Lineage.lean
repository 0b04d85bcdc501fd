import Mathlib.Data.List.Nodup
import Mathlib.Logic.Relation
import SoapTypes.Proofs.Inheritance.Index

/-!
# Lineages

The complex types of a schema make a partial map on names: a name leads to the base of its first
declaration. The lineage of a type is the walk of that map from the type's own base. This file
shows that a climb lists the lineage up to the place where it ends or meets a name again, whatever
the declarations are.
-/

namespace SoapTypes

namespace Schema

/-- The base of the first declaration of a name. -/
def baseOf (s : Schema) (name : String) : Option String :=
  (s.complexType? name).bind (·.base)

/-- A name extends the base of its first declaration. -/
def Extends (s : Schema) (name base : String) : Prop :=
  s.baseOf name = some base

/-- The walk upwards from a name whose base is given: the name, its base, the base of the first
declaration of that base, and so on. It ends, if it does, in nothing. -/
def lineage (s : Schema) (name : String) (base : Option String) : ℕ → Option String
  | 0 => some name
  | 1 => base
  | k + 2 => (s.lineage name base (k + 1)).bind s.baseOf

/-- A name that extends a base is declared, and its first declaration has that base. -/
theorem Extends.exists_declaration {s : Schema} {name base : String} (h : s.Extends name base) :
    ∃ t ∈ s.complexTypes, t.name = name ∧ t.base = some base := by
  obtain ⟨t, ht, hbase⟩ := Option.bind_eq_some_iff.1 h
  obtain ⟨hmem, hname⟩ := mem_of_complexType?_eq_some ht
  exact ⟨t, hmem, hname, hbase⟩

@[simp] theorem baseOf_index (s : Schema) (name : String) :
    s.index.baseOf name = s.baseOf name := by
  rw [TypeIndex.baseOf, get?_index, baseOf]

/-- One step up: the lineage of a name above its base is the lineage of the base. -/
theorem lineage_succ (s : Schema) (name base : String) (k : ℕ) :
    s.lineage name (some base) (k + 1) = s.lineage base (s.baseOf base) k := by
  induction k with
  | zero => rfl
  | succ k ih =>
    rw [lineage, ih]
    cases k with
    | zero => rfl
    | succ k => rfl

/-- The lineage of a name goes on with the base of the first declaration of each name. -/
theorem lineage_baseOf_succ (s : Schema) (name : String) (k : ℕ) :
    s.lineage name (s.baseOf name) (k + 1) = (s.lineage name (s.baseOf name) k).bind s.baseOf := by
  cases k with
  | zero => rfl
  | succ k => rfl

/-- A lineage that has ended does not go on. -/
theorem lineage_eq_none_of_le {s : Schema} {name : String} {base : Option String} {i j : ℕ}
    (hi : s.lineage name base i = none) (hij : i ≤ j) : s.lineage name base j = none := by
  induction hij with
  | refl => exact hi
  | @step j _ ih =>
    cases j with
    | zero => simp [lineage] at ih
    | succ j => rw [lineage, ih, Option.bind_none]

/-- The lineage of a name holds the names that are reached from it. -/
theorem reflTransGen_extends_iff {s : Schema} {a b : String} :
    Relation.ReflTransGen s.Extends a b ↔ ∃ k, s.lineage a (s.baseOf a) k = some b := by
  constructor
  · intro hreach
    induction hreach with
    | refl => exact ⟨0, rfl⟩
    | tail _ hextends ih =>
      obtain ⟨k, hk⟩ := ih
      exact ⟨k + 1, by rw [lineage_baseOf_succ, hk]; exact hextends⟩
  · rintro ⟨k, hk⟩
    induction k generalizing b with
    | zero =>
      obtain rfl := Option.some.inj hk
      exact .refl
    | succ k ih =>
      rw [lineage_baseOf_succ, Option.bind_eq_some_iff] at hk
      obtain ⟨c, hc, hextends⟩ := hk
      exact (ih hc).tail hextends

/-- A later name of the lineage of a name is reached from an earlier one. -/
theorem transGen_extends_of_lineage {s : Schema} {name a b : String} {i j : ℕ} (hij : i < j)
    (hi : s.lineage name (s.baseOf name) i = some a)
    (hj : s.lineage name (s.baseOf name) j = some b) : Relation.TransGen s.Extends a b := by
  induction j generalizing b with
  | zero => omega
  | succ j ih =>
    rw [lineage_baseOf_succ, Option.bind_eq_some_iff] at hj
    obtain ⟨c, hc, hextends⟩ := hj
    rcases Nat.lt_or_eq_of_le (Nat.le_of_lt_succ hij) with hlt | rfl
    · exact (ih hlt hc).tail hextends
    · obtain rfl := Option.some.inj (hi.symm.trans hc)
      exact .single hextends

/-- What a climb from a name upwards finds out about the lineage: the names of the climb, none of
which has been met before, and where the lineage goes on from the last of them. -/
structure Climbs (s : Schema) (seen : List String) (name : String) (base : Option String)
    (c : Climb) : Prop where
  follows : ∀ k ≤ c.chain.length, s.lineage name base k = (name :: c.chain)[k]?
  stops : s.lineage name base (c.chain.length + 1) = c.repeated
  distinct : c.chain.Nodup
  fresh : ∀ n ∈ c.chain, n ∉ seen
  met : ∀ n, c.repeated = some n → n ∈ seen ∨ n ∈ c.chain

/-- A climb does what `Climbs` tells, whatever has been met before. -/
theorem climbs_climb (s : Schema) (seen : List String) (name : String) (base : Option String) :
    s.Climbs seen name base (s.index.climb seen base) := by
  fun_induction s.index.climb seen base generalizing name with
  | case1 seen =>
    exact ⟨fun k hk => by simp_all [lineage], rfl, by simp, by simp, by simp⟩
  | case2 seen b hb =>
    exact ⟨fun k hk => by simp_all [lineage], rfl, by simp, by simp, by simpa using hb⟩
  | case3 seen b hb ht =>
    have hbase : s.baseOf b = none := by rw [baseOf, ← get?_index, ht]; rfl
    refine ⟨fun k hk => ?_, ?_, by simp, by simpa using hb, by simp⟩
    · match k, hk with
      | 0, _ => rfl
      | 1, _ => rfl
    · rw [List.length_singleton, lineage_succ, hbase]
      rfl
  | case4 seen b hb t ht above ih =>
    have hbase : s.baseOf b = t.base := by rw [baseOf, ← get?_index, ht]; rfl
    have habove : s.Climbs (b :: seen) b (s.baseOf b) above := by rw [hbase]; exact ih b
    refine ⟨fun k hk => ?_, ?_, ?_, ?_, fun n hn => ?_⟩
    · cases k with
      | zero => rfl
      | succ k =>
        rw [lineage_succ]
        exact habove.follows k (Nat.le_of_succ_le_succ hk)
    · rw [List.length_cons, lineage_succ]
      exact habove.stops
    · exact List.nodup_cons.2 ⟨fun hmem => habove.fresh b hmem List.mem_cons_self, habove.distinct⟩
    · intro n hn
      rcases List.mem_cons.1 hn with rfl | hn
      · exact hb
      · exact fun hseen => habove.fresh n hn (List.mem_cons_of_mem b hseen)
    · rcases habove.met n hn with hmem | hmem
      · rcases List.mem_cons.1 hmem with rfl | hmem
        · exact Or.inr List.mem_cons_self
        · exact Or.inl hmem
      · exact Or.inr (List.mem_cons_of_mem b hmem)

/-- A list of names traces a lineage if it is the lineage without repetition, up to where the
lineage ends or meets one of the names again. -/
structure Traces (s : Schema) (name : String) (base : Option String) (names : List String) :
    Prop where
  follows : ∀ k < names.length, s.lineage name base k = names[k]?
  distinct : names.Nodup
  stops : ∀ n, s.lineage name base names.length = some n → n ∈ names

/-- The climb from a name that counts as met traces the lineage. -/
theorem traces_climb (s : Schema) (name : String) (base : Option String) :
    s.Traces name base (name :: (s.index.climb [name] base).chain) := by
  have hclimb := s.climbs_climb [name] name base
  refine ⟨fun k hk => hclimb.follows k (Nat.le_of_lt_succ hk), ?_, fun n hn => ?_⟩
  · refine List.nodup_cons.2 ⟨fun hmem => ?_, hclimb.distinct⟩
    exact hclimb.fresh name hmem (List.mem_singleton_self name)
  · rw [List.length_cons, hclimb.stops] at hn
    rcases hclimb.met n hn with hmem | hmem
    · exact List.mem_cons.2 (Or.inl (List.mem_singleton.1 hmem))
    · exact List.mem_cons_of_mem name hmem

namespace Traces

variable {s : Schema} {name : String} {base : Option String} {names names' : List String}

/-- A trace cannot go on beyond another one, since it would repeat a name. -/
theorem length_le (h : s.Traces name base names) (h' : s.Traces name base names') :
    names'.length ≤ names.length := by
  by_contra hlt
  have hlt : names.length < names'.length := by omega
  have hnext : s.lineage name base names.length = some names'[names.length] := by
    rw [h'.follows _ hlt, List.getElem?_eq_getElem hlt]
  obtain ⟨i, hi, hget⟩ := List.mem_iff_getElem.1 (h.stops _ hnext)
  have hi' : i < names'.length := by omega
  have hsame : names[i]? = names'[i]? := by rw [← h.follows i hi, h'.follows i hi']
  rw [List.getElem?_eq_getElem hi, List.getElem?_eq_getElem hi', Option.some.injEq] at hsame
  have heq : i = names.length := h'.distinct.getElem_inj_iff.1 (hsame.symm.trans hget)
  omega

/-- A lineage has one trace. -/
theorem unique (h : s.Traces name base names) (h' : s.Traces name base names') :
    names = names' := by
  have hlength : names.length = names'.length := Nat.le_antisymm (h'.length_le h) (h.length_le h')
  apply List.ext_getElem? fun k => ?_
  by_cases hk : k < names.length
  · rw [← h.follows k hk, h'.follows k (by omega)]
  · rw [List.getElem?_eq_none (by omega), List.getElem?_eq_none (by omega)]

/-- A lineage repeats a name exactly if it goes on at the end of its trace. -/
theorem repeats_iff (h : s.Traces name base names) :
    (∃ i j n, i < j ∧ s.lineage name base i = some n ∧ s.lineage name base j = some n) ↔
      ∃ n, s.lineage name base names.length = some n := by
  constructor
  · rintro ⟨i, j, n, hij, hi, hj⟩
    by_contra hends
    have hnone : s.lineage name base names.length = none := by
      simpa [Option.eq_none_iff_forall_ne_some] using hends
    have hlt : j < names.length := by
      by_contra hle
      have := lineage_eq_none_of_le hnone (Nat.le_of_not_lt hle)
      simp [hj] at this
    have hsame : names[i]? = names[j]? := by
      rw [← h.follows i (by omega), ← h.follows j hlt, hi, hj]
    rw [List.getElem?_eq_getElem (by omega), List.getElem?_eq_getElem hlt,
      Option.some.injEq] at hsame
    have : i = j := h.distinct.getElem_inj_iff.1 hsame
    omega
  · rintro ⟨n, hn⟩
    obtain ⟨i, hi, hget⟩ := List.mem_iff_getElem.1 (h.stops n hn)
    refine ⟨i, names.length, n, hi, ?_, hn⟩
    rw [h.follows i hi, List.getElem?_eq_getElem hi, hget]

end Traces

end Schema

end SoapTypes
