import Mathlib.Data.Finset.Card
import Mathlib.Data.List.Infix
import SoapTypes.Schema.Validity

/-!
# Warnings about names

Validation goes through the simple types and then through the complex types, with the names met so
far in hand. This file says what it tells without the names in hand: what is told of a type is
decided by the names that stand before it, so the warnings are a function of the names alone.
Whether the schema is sound, what the types extend and which fields they have makes no difference.
-/

namespace SoapTypes

/-! ## Members that occur before -/

/-- The members of a list, each with the members that stand before it. -/
def withEarlier {α : Type} (xs : List α) : List (List α × α) := xs.inits.zip xs

theorem withEarlier_cons {α : Type} (x : α) (xs : List α) :
    withEarlier (x :: xs) = ([], x) :: (withEarlier xs).map (Prod.map (x :: ·) id) := by
  rw [withEarlier, withEarlier, List.inits_cons, List.zip_cons_cons, List.zip_map_left]

/-- All members of a list stand before a further one. -/
theorem withEarlier_concat {α : Type} (xs : List α) (x : α) :
    withEarlier (xs ++ [x]) = withEarlier xs ++ [(xs, x)] := by
  induction xs with
  | nil => rfl
  | cons y xs ih =>
    rw [List.cons_append, withEarlier_cons, withEarlier_cons, ih, List.map_append]
    rfl

theorem map_snd_withEarlier {α : Type} (xs : List α) : (withEarlier xs).map Prod.snd = xs := by
  rw [withEarlier, List.map_snd_zip]
  simp

/-- The members that occur before and the distinct members make up the length of a list. -/
theorem countP_withEarlier_add_card (names : List String) :
    (withEarlier names).countP (fun p => p.2 ∈ p.1) + names.toFinset.card = names.length := by
  induction names using List.reverseRecOn with
  | nil => rfl
  | append_singleton names n ih =>
    have hset : (names ++ [n]).toFinset = insert n names.toFinset := by
      rw [List.toFinset_append]
      simp
    rw [withEarlier_concat, List.countP_append, hset, List.length_append, List.length_singleton,
      ← ih]
    by_cases hn : n ∈ names
    · rw [Finset.insert_eq_of_mem (List.mem_toFinset.2 hn)]
      simp [hn]
      omega
    · rw [Finset.card_insert_of_notMem (mt List.mem_toFinset.1 hn)]
      simp [hn]
      omega

/-- No member occurs before exactly if all are distinct. -/
theorem forall_withEarlier_notMem_iff {names : List String} :
    (∀ p ∈ withEarlier names, p.2 ∉ p.1) ↔ names.Nodup := by
  induction names using List.reverseRecOn with
  | nil => simp [withEarlier]
  | append_singleton names n ih =>
    rw [withEarlier_concat, List.forall_mem_append, ih, List.forall_mem_singleton,
      List.nodup_append_comm, List.singleton_append, List.nodup_cons, and_comm]

/-- What is counted in the answers for the members of a list is counted in the list itself, if each
answer has at most one thing of the kind. -/
theorem countP_flatMap_eq {α β : Type} {f : α → List β} {p : β → Bool} {q : α → Bool}
    (h : ∀ a, (f a).countP p = if q a = true then 1 else 0) (xs : List α) :
    (xs.flatMap f).countP p = xs.countP q := by
  induction xs with
  | nil => rfl
  | cons x xs ih =>
    rw [List.flatMap_cons, List.countP_append, ih, h, List.countP_cons, Nat.add_comm]

/-! ## The warnings of a schema -/

/-- Whether a notice tells that the name of a simple type is repeated. -/
def Notice.repeatsSimpleType : Notice → Bool
  | duplicateSimpleType _ => true
  | _ => false

/-- Whether a notice tells that the name of a complex type is repeated. -/
def Notice.repeatsComplexType : Notice → Bool
  | duplicateComplexType _ => true
  | _ => false

/-- What is told of the name of a simple type, given the names before it. -/
def warningsOfSimple (earlier : List String) (n : String) : List Notice :=
  if n ∈ earlier then [.duplicateSimpleType n] else []

/-- What is told of the name of a complex type, given the names before it and those of the simple
types: first whether it is repeated and then whether it is shared. -/
def warningsOfComplex (simple earlier : List String) (n : String) : List Notice :=
  (if n ∈ earlier then [.duplicateComplexType n] else []) ++
    if n ∈ simple then [.sharedName n] else []

/-- What is told of all names of a schema. -/
def warningsOfNames (simple complex : List String) : List Notice :=
  (withEarlier simple).flatMap (fun p => warningsOfSimple p.1 p.2) ++
    (withEarlier complex).flatMap fun p => warningsOfComplex simple p.1 p.2

/-- A name met on the way counts as one that stands before. -/
theorem mem_append_cons_iff {seen earlier : List String} {m n : String} :
    n ∈ seen ++ m :: earlier ↔ n ∈ m :: seen ++ earlier :=
  List.perm_middle.mem_iff

theorem eq_of_mem_ite {α : Type} {c : Prop} [Decidable c] {a b : α}
    (h : a ∈ if c then [b] else []) : a = b := by
  split at h
  · exact List.mem_singleton.1 h
  · cases h

/-- All that is told of names is a warning. -/
theorem level_of_mem_warningsOfNames {simple complex : List String} {notice : Notice}
    (h : notice ∈ warningsOfNames simple complex) : notice.level = .warn := by
  rcases List.mem_append.1 h with h | h
  · obtain ⟨p, -, hp⟩ := List.mem_flatMap.1 h
    rw [eq_of_mem_ite hp, Notice.level]
  · obtain ⟨p, -, hp⟩ := List.mem_flatMap.1 h
    rcases List.mem_append.1 hp with hp | hp
    · rw [eq_of_mem_ite hp, Notice.level]
    · rw [eq_of_mem_ite hp, Notice.level]

/-- As many repetitions are told of among the simple types as there are. -/
theorem countP_repeatsSimpleType (simple complex : List String) :
    (warningsOfNames simple complex).countP Notice.repeatsSimpleType =
      (withEarlier simple).countP fun p => p.2 ∈ p.1 := by
  have hsimple (p : List String × String) :
      (warningsOfSimple p.1 p.2).countP Notice.repeatsSimpleType =
        if decide (p.2 ∈ p.1) = true then 1 else 0 := by
    by_cases hp : p.2 ∈ p.1 <;> simp [warningsOfSimple, hp, Notice.repeatsSimpleType]
  have hcomplex (p : List String × String) :
      (warningsOfComplex simple p.1 p.2).countP Notice.repeatsSimpleType = 0 := by
    rw [warningsOfComplex, List.countP_append]
    split <;> split <;> rfl
  rw [warningsOfNames, List.countP_append, countP_flatMap_eq hsimple, List.countP_flatMap]
  simp [Function.comp_def, hcomplex]

/-- As many repetitions are told of among the complex types as there are. -/
theorem countP_repeatsComplexType (simple complex : List String) :
    (warningsOfNames simple complex).countP Notice.repeatsComplexType =
      (withEarlier complex).countP fun p => p.2 ∈ p.1 := by
  have hsimple (p : List String × String) :
      (warningsOfSimple p.1 p.2).countP Notice.repeatsComplexType = 0 := by
    rw [warningsOfSimple]
    split <;> rfl
  have hcomplex (p : List String × String) :
      (warningsOfComplex simple p.1 p.2).countP Notice.repeatsComplexType =
        if decide (p.2 ∈ p.1) = true then 1 else 0 := by
    rw [warningsOfComplex, List.countP_append]
    by_cases hp : p.2 ∈ p.1 <;> by_cases hs : p.2 ∈ simple <;>
      simp [hp, hs, Notice.repeatsComplexType]
  rw [warningsOfNames, List.countP_append, countP_flatMap_eq hcomplex, List.countP_flatMap]
  simp [Function.comp_def, hsimple]

/-- Nothing is told of names that are all distinct, and of others something is. -/
theorem warningsOfNames_eq_nil_iff {simple complex : List String} :
    warningsOfNames simple complex = [] ↔ (simple ++ complex).Nodup := by
  have hshared : (∀ p ∈ withEarlier complex, p.2 ∉ simple) ↔ simple.Disjoint complex := by
    rw [← List.forall_mem_map (f := Prod.snd) (P := (· ∉ simple)), map_snd_withEarlier]
    exact List.disjoint_comm
  simp only [warningsOfNames, List.append_eq_nil_iff, List.flatMap_eq_nil_iff, warningsOfSimple,
    warningsOfComplex, ite_eq_right_iff, List.cons_ne_nil, imp_false, forall_and, hshared,
    forall_withEarlier_notMem_iff, List.nodup_append']

namespace Schema

/-- A further simple type adds its own warning to those of the types before it. -/
theorem repeatedSimpleTypes_concat (seen : List String) (ts : List SimpleType) (t : SimpleType) :
    repeatedSimpleTypes seen (ts ++ [t]) =
      repeatedSimpleTypes seen ts ++ warningsOfSimple (seen ++ ts.map (·.name)) t.name := by
  induction ts generalizing seen with
  | nil => simp [repeatedSimpleTypes, warningsOfSimple]
  | cons u ts ih =>
    rw [List.cons_append, repeatedSimpleTypes, repeatedSimpleTypes, ih, List.append_assoc]
    simp only [List.map_cons, warningsOfSimple, mem_append_cons_iff]

/-- A simple type is found exactly under the names of the simple types. -/
theorem isSome_simpleType?_iff {s : Schema} {name : String} :
    (s.simpleType? name).isSome = true ↔ name ∈ s.simpleTypes.map (·.name) := by
  rw [simpleType?, List.find?_isSome, List.mem_map]
  simp only [beq_iff_eq]

/-- A further complex type adds its own warnings to those of the types before it. -/
theorem repeatedComplexTypes_concat (s : Schema) (seen : List String) (ts : List ComplexType)
    (t : ComplexType) :
    s.repeatedComplexTypes seen (ts ++ [t]) = s.repeatedComplexTypes seen ts ++
      warningsOfComplex (s.simpleTypes.map (·.name)) (seen ++ ts.map (·.name)) t.name := by
  induction ts generalizing seen with
  | nil => simp [repeatedComplexTypes, warningsOfComplex, isSome_simpleType?_iff]
  | cons u ts ih =>
    rw [List.cons_append, repeatedComplexTypes, repeatedComplexTypes, ih]
    simp only [List.map_cons, warningsOfComplex, mem_append_cons_iff, List.append_assoc]

theorem repeatedSimpleTypes_eq_flatMap (ts : List SimpleType) :
    repeatedSimpleTypes [] ts =
      (withEarlier (ts.map (·.name))).flatMap fun p => warningsOfSimple p.1 p.2 := by
  induction ts using List.reverseRecOn with
  | nil => rfl
  | append_singleton ts t ih =>
    rw [repeatedSimpleTypes_concat, ih, List.map_append, List.map_singleton, withEarlier_concat,
      List.flatMap_append, List.flatMap_singleton, List.nil_append]

theorem repeatedComplexTypes_eq_flatMap (s : Schema) (ts : List ComplexType) :
    s.repeatedComplexTypes [] ts = (withEarlier (ts.map (·.name))).flatMap fun p =>
      warningsOfComplex (s.simpleTypes.map (·.name)) p.1 p.2 := by
  induction ts using List.reverseRecOn with
  | nil => rfl
  | append_singleton ts t ih =>
    rw [repeatedComplexTypes_concat, ih, List.map_append, List.map_singleton, withEarlier_concat,
      List.flatMap_append, List.flatMap_singleton, List.nil_append]

/-- The warnings of a schema are those of its names. -/
theorem nameWarnings_eq (s : Schema) :
    s.nameWarnings =
      warningsOfNames (s.simpleTypes.map (·.name)) (s.complexTypes.map (·.name)) := by
  rw [nameWarnings, repeatedSimpleTypes_eq_flatMap, repeatedComplexTypes_eq_flatMap,
    warningsOfNames]

/-- No warning is given exactly if all names are distinct. -/
theorem nameWarnings_eq_nil_iff {s : Schema} :
    s.nameWarnings = [] ↔
      (s.simpleTypes.map (·.name) ++ s.complexTypes.map (·.name)).Nodup := by
  rw [nameWarnings_eq, warningsOfNames_eq_nil_iff]

/-- **The warnings of validation.** Whether or not a schema is sound, validation tells what its
names call for and nothing else: of each simple type whose name occurs before, that it is repeated;
then of each complex type, that it is repeated if its name occurs before and that it is shared if a
simple type has its name. So the repetitions told of and the distinct names make up each list, and
nothing is told exactly if all names are distinct. -/
theorem warnings_of_validate (s : Schema) :
    s.validate.notices =
        warningsOfNames (s.simpleTypes.map (·.name)) (s.complexTypes.map (·.name)) ∧
      (∀ notice ∈ s.validate.notices, notice.level = .warn) ∧
      s.validate.notices.countP Notice.repeatsSimpleType +
        (s.simpleTypes.map (·.name)).toFinset.card = s.simpleTypes.length ∧
      s.validate.notices.countP Notice.repeatsComplexType +
        (s.complexTypes.map (·.name)).toFinset.card = s.complexTypes.length ∧
      (s.validate.notices = [] ↔
        (s.simpleTypes.map (·.name) ++ s.complexTypes.map (·.name)).Nodup) := by
  have hnotices : s.validate.notices =
      warningsOfNames (s.simpleTypes.map (·.name)) (s.complexTypes.map (·.name)) :=
    s.nameWarnings_eq
  rw [hnotices]
  refine ⟨rfl, fun notice => level_of_mem_warningsOfNames, ?_, ?_, warningsOfNames_eq_nil_iff⟩
  · rw [countP_repeatsSimpleType, countP_withEarlier_add_card, List.length_map]
  · rw [countP_repeatsComplexType, countP_withEarlier_add_card, List.length_map]

/-- A type that is both repeated and shared is told of twice, also if the schema is not sound. -/
example : (validate ⟨[⟨"A", some "int", none⟩], [⟨"A", none, []⟩, ⟨"A", some "B", []⟩]⟩).notices =
    [.sharedName "A", .duplicateComplexType "A", .sharedName "A"] := by decide

end Schema

end SoapTypes
