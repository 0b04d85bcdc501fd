import Mathlib.Data.List.Forall2
import Mathlib.Data.List.Perm.Basic
import Mathlib.Data.List.ReduceOption
import SoapTypes.Proofs.FirstMember
import SoapTypes.Report

/-!
# Traversals of lists

A traversal that may fail succeeds exactly if each of its steps does, and then gives the values of
the steps in order. Otherwise it fails as the first step does that fails. This holds of `mapM` and
of `Report.collect`, which drops the steps without a value.
-/

namespace SoapTypes

variable {ε α β γ δ : Type}

/-- Two steps succeed exactly if the first does and the second does on its value. -/
theorem except_bind_eq_ok_iff {x : Except ε α} {f : α → Except ε β} {b : β} :
    x.bind f = .ok b ↔ ∃ a, x = .ok a ∧ f a = .ok b := by
  cases x with
  | error e => simp [Except.bind]
  | ok a => simp [Except.bind]

/-- Two steps fail exactly if the first does, or the second does on the value of the first. -/
theorem except_bind_eq_error_iff {x : Except ε α} {f : α → Except ε β} {e : ε} :
    x.bind f = .error e ↔ x = .error e ∨ ∃ a, x = .ok a ∧ f a = .error e := by
  cases x with
  | error e' => simp [Except.bind]
  | ok a => simp [Except.bind]

/-- A mapped computation succeeds exactly if the computation does. -/
theorem except_map_eq_ok_iff {x : Except ε α} {f : α → β} {b : β} :
    x.map f = .ok b ↔ ∃ a, x = .ok a ∧ f a = b := by
  cases x with
  | error e => simp [Except.map]
  | ok a => simp [Except.map]

/-- A mapped computation fails exactly if the computation does. -/
theorem except_map_eq_error_iff {x : Except ε α} {f : α → β} {e : ε} :
    x.map f = .error e ↔ x = .error e := by
  cases x with
  | error e' => simp [Except.map]
  | ok a => simp [Except.map]

/-- Mapping the error of a computation does not change its value. -/
theorem except_mapError_eq_ok_iff {x : Except ε α} {f : ε → γ} {a : α} :
    x.mapError f = .ok a ↔ x = .ok a := by
  cases x with
  | error e => simp [Except.mapError]
  | ok a => simp [Except.mapError]

/-- A computation succeeds exactly if it has a value. -/
theorem except_toOption_eq_some_iff {x : Except ε α} {a : α} :
    x.toOption = some a ↔ x = .ok a := by
  cases x with
  | error e => simp [Except.toOption]
  | ok a => simp [Except.toOption]

/-- Mapping a computation does not change whether it succeeds. -/
theorem exists_except_map_eq_ok_iff {x : Except ε α} {f : α → β} :
    (∃ b, x.map f = .ok b) ↔ ∃ a, x = .ok a := by
  simp only [except_map_eq_ok_iff]
  constructor
  · rintro ⟨_, a, ha, -⟩
    exact ⟨a, ha⟩
  · rintro ⟨a, ha⟩
    exact ⟨f a, a, ha, rfl⟩

/-- A traversal takes the step at the head first. -/
theorem mapM_cons_eq_bind (f : α → Except ε β) (x : α) (xs : List α) :
    (x :: xs).mapM f = (f x).bind fun y => (xs.mapM f).bind fun ys => .ok (y :: ys) :=
  List.mapM_cons

/-- A traversal succeeds with the values of its steps. -/
theorem mapM_eq_ok_iff {f : α → Except ε β} {xs : List α} {ys : List β} :
    xs.mapM f = .ok ys ↔ List.Forall₂ (fun x y => f x = .ok y) xs ys := by
  induction xs generalizing ys with
  | nil =>
    rw [List.mapM_nil, List.forall₂_nil_left_iff]
    exact ⟨fun h => (Except.ok.inj h).symm, fun h => h ▸ rfl⟩
  | cons x xs ih =>
    rw [mapM_cons_eq_bind, except_bind_eq_ok_iff, List.forall₂_cons_left_iff]
    constructor
    · rintro ⟨y, hy, hrest⟩
      obtain ⟨ys', hys', heq⟩ := except_bind_eq_ok_iff.1 hrest
      exact ⟨y, ys', hy, ih.1 hys', (Except.ok.inj heq).symm⟩
    · rintro ⟨y, ys', hy, hys', rfl⟩
      exact ⟨y, hy, except_bind_eq_ok_iff.2 ⟨ys', ih.2 hys', rfl⟩⟩

/-- Each value of a traversal comes from a step. -/
theorem exists_of_mem_mapM {f : α → Except ε β} {xs : List α} {ys : List β}
    (h : xs.mapM f = .ok ys) {y : β} (hy : y ∈ ys) : ∃ x ∈ xs, f x = .ok y := by
  have hsteps := mapM_eq_ok_iff.1 h
  obtain ⟨i, hi, rfl⟩ := List.mem_iff_getElem.1 hy
  have hi' : i < xs.length := by rw [hsteps.length_eq]; exact hi
  exact ⟨xs[i], List.getElem_mem hi', hsteps.get hi' hi⟩

/-- Each step of a traversal gives one of its values. -/
theorem exists_mem_of_mapM {f : α → Except ε β} {xs : List α} {ys : List β}
    (h : xs.mapM f = .ok ys) {x : α} (hx : x ∈ xs) : ∃ y ∈ ys, f x = .ok y := by
  have hsteps := mapM_eq_ok_iff.1 h
  obtain ⟨i, hi, rfl⟩ := List.mem_iff_getElem.1 hx
  have hi' : i < ys.length := by rw [← hsteps.length_eq]; exact hi
  exact ⟨ys[i], List.getElem_mem hi', hsteps.get hi hi'⟩

/-- What the values of a traversal tell is what the members tell, if each step keeps it. -/
theorem map_eq_of_mapM {f : α → Except ε β} {xs : List α} {ys : List β} {tells : β → γ}
    {told : α → γ} (h : xs.mapM f = .ok ys)
    (hstep : ∀ x ∈ xs, ∀ y, f x = .ok y → tells y = told x) : ys.map tells = xs.map told := by
  rw [mapM_eq_ok_iff] at h
  induction h with
  | nil => rfl
  | @cons x y xs ys hy _ ih =>
    rw [List.map_cons, List.map_cons, hstep x List.mem_cons_self y hy,
      ih fun x hx => hstep x (List.mem_cons_of_mem _ hx)]

/-- A traversal succeeds exactly if each of its steps does. -/
theorem exists_mapM_eq_ok_iff {f : α → Except ε β} {xs : List α} :
    (∃ ys, xs.mapM f = .ok ys) ↔ ∀ x ∈ xs, ∃ y, f x = .ok y := by
  simp only [mapM_eq_ok_iff]
  induction xs with
  | nil => exact ⟨fun _ => by simp, fun _ => ⟨[], .nil⟩⟩
  | cons x xs ih =>
    rw [List.forall_mem_cons, ← ih]
    constructor
    · rintro ⟨_, hsteps⟩
      obtain ⟨y, ys, hy, hys, rfl⟩ := List.forall₂_cons_left_iff.1 hsteps
      exact ⟨⟨y, hy⟩, ys, hys⟩
    · rintro ⟨⟨y, hy⟩, ys, hys⟩
      exact ⟨y :: ys, .cons hy hys⟩

/-- A traversal of the same members in another order gives the same values in another order. -/
theorem exists_mapM_of_perm {f : α → Except ε β} {xs xs' : List α} {ys : List β}
    (hperm : xs'.Perm xs) (h : xs.mapM f = .ok ys) :
    ∃ ys', xs'.mapM f = .ok ys' ∧ ys'.Perm ys := by
  obtain ⟨ys', hsteps, hys⟩ := List.perm_comp_forall₂ hperm (mapM_eq_ok_iff.1 h)
  exact ⟨ys', mapM_eq_ok_iff.2 hsteps, hys⟩

/-- If each member tells what the value beside it does, the members tell what the values do. -/
theorem filterMap_eq_map_of_forall₂ {told? : α → Option γ} {tells : β → γ} {xs : List α}
    {ys : List β} (h : List.Forall₂ (fun x y => told? x = some (tells y)) xs ys) :
    xs.filterMap told? = ys.map tells := by
  induction h with
  | nil => rfl
  | cons hx _ ih => rw [List.filterMap_cons_some hx, List.map_cons, ih]

/-- The values of a traversal are those of the steps that have one. -/
theorem eq_filterMap_of_mapM {f : α → Except ε β} {xs : List α} {ys : List β}
    (h : xs.mapM f = .ok ys) : ys = xs.filterMap fun x => (f x).toOption := by
  have hvalues : xs.filterMap (fun x => (f x).toOption) = ys.map id :=
    filterMap_eq_map_of_forall₂ ((mapM_eq_ok_iff.1 h).imp fun {_ _} hy =>
      except_toOption_eq_some_iff.2 hy)
  rw [hvalues, List.map_id]

/-- A traversal of values that are each given back by a step gives them all back. -/
theorem mapM_map_eq_ok {f : α → Except ε β} {g : β → α} {ys : List β}
    (h : ∀ y ∈ ys, f (g y) = .ok y) : (ys.map g).mapM f = .ok ys := by
  rw [mapM_eq_ok_iff, List.forall₂_map_left_iff, List.forall₂_same]
  exact h

/-- If the values of two traversals tell the same, so do the members that they come from, provided
that each value tells what its member does. -/
theorem map_eq_map_of_mapM {f g : α → Except ε β} {xs ys : List α} {us vs : List β}
    {told : α → γ} {tells : β → δ} (hus : xs.mapM f = .ok us) (hvs : ys.mapM g = .ok vs)
    (hstep : ∀ x ∈ xs, ∀ y ∈ ys, ∀ u v, f x = .ok u → g y = .ok v → tells u = tells v →
      told x = told y)
    (h : us.map tells = vs.map tells) : xs.map told = ys.map told := by
  rw [mapM_eq_ok_iff] at hus hvs
  induction hus generalizing ys vs with
  | nil =>
    cases hvs with
    | nil => rfl
    | cons => cases h
  | @cons x u xs us hu _ ih =>
    cases hvs with
    | nil => cases h
    | @cons y v ys vs hv hvs =>
      obtain ⟨hhead, htail⟩ := List.cons.inj h
      rw [List.map_cons, List.map_cons,
        hstep x List.mem_cons_self y List.mem_cons_self u v hu hv hhead,
        ih hvs (fun x hx y hy => hstep x (List.mem_cons_of_mem _ hx) y
          (List.mem_cons_of_mem _ hy)) htail]

/-- The error of a computation that fails. -/
def failure? : Except ε α → Option ε
  | .error e => some e
  | .ok _ => none

theorem failure?_eq_some_iff {x : Except ε α} {e : ε} : failure? x = some e ↔ x = .error e := by
  cases x with
  | error e' => simp [failure?]
  | ok a => simp [failure?]

theorem failure?_eq_none_iff {x : Except ε α} : failure? x = none ↔ ∃ a, x = .ok a := by
  cases x with
  | error e => simp [failure?]
  | ok a => simp [failure?]

@[simp] theorem failure?_map (x : Except ε α) (f : α → β) : failure? (x.map f) = failure? x := by
  cases x <;> rfl

/-- Of two steps the first one that fails is the failure of both, if the value of the first does
not matter to the failure of the second. -/
theorem failure?_bind {x : Except ε α} {f : α → Except ε β} {failure : Option ε}
    (h : ∀ a, failure? (f a) = failure) : failure? (x.bind f) = (failure? x).or failure := by
  cases x with
  | error e => rfl
  | ok a => exact h a

/-- A step that cannot fail does not matter to the failure. -/
@[simp] theorem failure?_bind_ok (x : Except ε α) (f : α → β) :
    failure? (x.bind fun a => .ok (f a)) = failure? x := by
  cases x <;> rfl

/-- A traversal fails as the first step does that fails. -/
theorem failure?_mapM (f : α → Except ε β) (xs : List α) :
    failure? (xs.mapM f) = xs.findSome? fun x => failure? (f x) := by
  induction xs with
  | nil => rfl
  | cons x xs ih =>
    have hrest (y : β) : failure? ((xs.mapM f).bind fun ys => .ok (y :: ys)) =
        xs.findSome? fun x => failure? (f x) := by
      rw [failure?_bind_ok, ih]
    rw [mapM_cons_eq_bind, failure?_bind hrest, List.findSome?_cons]
    cases failure? (f x) <;> rfl

/-- A search for a failure ends in that of the first member that fails. -/
theorem findSome?_failure?_iff_firstOf {f : α → Except ε β} {p : α → Prop} {xs : List α}
    (hp : ∀ x ∈ xs, p x ↔ ∃ e, f x = .error e) {e : ε} :
    (xs.findSome? fun x => failure? (f x)) = some e ↔ ∃ x, FirstOf p xs x ∧ f x = .error e := by
  have hfails : ∀ x ∈ xs, p x ↔ ∃ e, failure? (f x) = some e := fun x hx => by
    simp only [hp x hx, failure?_eq_some_iff]
  simp only [findSome?_eq_some_iff_firstOf hfails, failure?_eq_some_iff]

/-- A traversal fails exactly with the error of the first member that fails. -/
theorem mapM_eq_error_iff_firstOf {f : α → Except ε β} {p : α → Prop} {xs : List α}
    (hp : ∀ x ∈ xs, p x ↔ ∃ e, f x = .error e) {e : ε} :
    xs.mapM f = .error e ↔ ∃ x, FirstOf p xs x ∧ f x = .error e := by
  rw [← failure?_eq_some_iff, failure?_mapM, findSome?_failure?_iff_firstOf hp]

namespace Report

/-- Collecting succeeds with the values of those steps that have one. -/
theorem collect_result_eq (f : α → Report ε (Option β)) (xs : List α) :
    (collect f xs).result = (xs.mapM fun x => (f x).result).map List.reduceOption := by
  induction xs with
  | nil => rfl
  | cons x xs ih =>
    rw [collect, mapM_cons_eq_bind, result_bind]
    cases (f x).result with
    | error e => rfl
    | ok y =>
      simp only [Except.bind, result_bind, ih]
      cases xs.mapM fun x => (f x).result with
      | error e => rfl
      | ok ys =>
        cases y with
        | none => rfl
        | some y => rfl

/-- Collecting fails as the first step does that fails. -/
theorem failure?_collect (f : α → Report ε (Option β)) (xs : List α) :
    failure? (collect f xs).result = xs.findSome? fun x => failure? (f x).result := by
  rw [collect_result_eq, failure?_map, failure?_mapM]

/-- A step that tells nothing and cannot fail adds no notices. -/
theorem notices_bind_ok (r : Report ε α) (f : α → β) :
    (r.bind fun a => ok (f a)).notices = r.notices := by
  rcases r with ⟨notices, _ | a⟩
  · rfl
  · exact List.append_nil notices

/-- Collecting that succeeds has told what its steps tell, in order. -/
theorem notices_collect {f : α → Report ε (Option β)} {xs : List α} {ys : List β}
    (h : (collect f xs).result = .ok ys) :
    (collect f xs).notices = xs.flatMap fun x => (f x).notices := by
  induction xs generalizing ys with
  | nil => rfl
  | cons x xs ih =>
    rw [collect, result_bind] at h
    obtain ⟨y, hy, hrest⟩ := except_bind_eq_ok_iff.1 h
    rw [result_bind] at hrest
    obtain ⟨ys', hys', -⟩ := except_bind_eq_ok_iff.1 hrest
    rw [collect, notices_bind_of_result_eq_ok hy, notices_bind_ok, ih hys', List.flatMap_cons]

/-- Collecting depends on the outcomes of its steps only. -/
theorem collect_map_result {f : α → Report ε (Option β)} {g : α → α}
    (h : ∀ x, (f (g x)).result = (f x).result) (xs : List α) :
    (collect f (xs.map g)).result = (collect f xs).result := by
  rw [collect_result_eq, collect_result_eq, List.mapM_map]
  congr 2
  funext x
  exact h x

/-- Each value that is collected comes from a step. -/
theorem exists_of_mem_collect {f : α → Report ε (Option β)} {xs : List α} {ys : List β}
    (h : (collect f xs).result = .ok ys) {y : β} (hy : y ∈ ys) :
    ∃ x ∈ xs, (f x).result = .ok (some y) := by
  rw [collect_result_eq, except_map_eq_ok_iff] at h
  obtain ⟨os, hos, rfl⟩ := h
  exact exists_of_mem_mapM hos (List.reduceOption_mem_iff.1 hy)

/-- The values that are collected are those that a function tells which agrees with the steps. -/
theorem eq_filterMap_of_collect {f : α → Report ε (Option β)} {g : α → Option β} {xs : List α}
    {ys : List β} (h : (collect f xs).result = .ok ys)
    (hg : ∀ x ∈ xs, ∀ o, (f x).result = .ok o → g x = o) : ys = xs.filterMap g := by
  rw [collect_result_eq, except_map_eq_ok_iff] at h
  obtain ⟨os, hos, rfl⟩ := h
  have hvalues : os.map id = xs.map g :=
    map_eq_of_mapM hos fun x hx o ho => (hg x hx o ho).symm
  rw [List.map_id] at hvalues
  rw [hvalues, List.reduceOption, List.filterMap_map]
  rfl

/-- The value of each step that has one is collected. -/
theorem mem_of_collect {f : α → Report ε (Option β)} {xs : List α} {ys : List β}
    (h : (collect f xs).result = .ok ys) {x : α} (hx : x ∈ xs) {y : β}
    (hy : (f x).result = .ok (some y)) : y ∈ ys := by
  rw [collect_result_eq, except_map_eq_ok_iff] at h
  obtain ⟨os, hos, rfl⟩ := h
  obtain ⟨o, ho, hstep⟩ := exists_mem_of_mapM hos hx
  obtain rfl := Except.ok.inj (hstep.symm.trans hy)
  exact List.reduceOption_mem_iff.2 ho

/-- Collecting from the same members in another order gives the same values in another order. -/
theorem exists_collect_of_perm {f : α → Report ε (Option β)} {xs xs' : List α} {ys : List β}
    (hperm : xs'.Perm xs) (h : (collect f xs).result = .ok ys) :
    ∃ ys', (collect f xs').result = .ok ys' ∧ ys'.Perm ys := by
  rw [collect_result_eq, except_map_eq_ok_iff] at h
  obtain ⟨os, hos, rfl⟩ := h
  obtain ⟨os', hos', hsame⟩ := exists_mapM_of_perm hperm hos
  refine ⟨os'.reduceOption, ?_, hsame.filterMap id⟩
  rw [collect_result_eq, hos', Except.map]

/-- The values that are collected stand beside the members whose steps have a value, in order. -/
theorem forall₂_filter_of_collect {f : α → Report ε (Option β)} {xs : List α} {ys : List β}
    {p : α → Bool} (h : (collect f xs).result = .ok ys)
    (hp : ∀ x ∈ xs, ∀ o, (f x).result = .ok o → o.isSome = p x) :
    List.Forall₂ (fun x y => (f x).result = .ok (some y)) (xs.filter p) ys := by
  rw [collect_result_eq, except_map_eq_ok_iff] at h
  obtain ⟨os, hos, rfl⟩ := h
  rw [mapM_eq_ok_iff] at hos
  induction hos with
  | nil => exact .nil
  | @cons x o xs os ho _ ih =>
    have hx := hp x List.mem_cons_self o ho
    have hrest := ih fun x hx => hp x (List.mem_cons_of_mem _ hx)
    cases o with
    | none => rwa [List.filter_cons_of_neg (by simp [← hx])]
    | some y =>
      rw [List.filter_cons_of_pos hx.symm]
      exact .cons ho hrest

/-- What collected values tell is told by the members, which may tell more. -/
theorem map_sublist_filterMap_of_collect {f : α → Report ε (Option β)} {xs : List α} {ys : List β}
    {told? : α → Option γ} {tells : β → γ} (h : (collect f xs).result = .ok ys)
    (hstep : ∀ x y, (f x).result = .ok (some y) → told? x = some (tells y)) :
    (ys.map tells).Sublist (xs.filterMap told?) := by
  have hgiven := forall₂_filter_of_collect (p := fun x => (f x).result.toOption.join.isSome) h
    fun x _ o ho => by rw [ho]; rfl
  rw [← filterMap_eq_map_of_forall₂ (hgiven.imp fun {x y} hxy => hstep x y hxy)]
  exact (List.filter_sublist (l := xs)).filterMap told?

/-- Collecting from values that are each given back by a step gives them all back. -/
theorem collect_map_eq_ok {f : α → Report ε (Option β)} {g : β → α} {ys : List β}
    (h : ∀ y ∈ ys, (f (g y)).result = .ok (some y)) : (collect f (ys.map g)).result = .ok ys := by
  have hsteps : ((ys.map g).mapM fun x => (f x).result) = .ok (ys.map some) := by
    rw [mapM_eq_ok_iff, List.forall₂_map_left_iff, List.forall₂_map_right_iff, List.forall₂_same]
    exact h
  have hall : (ys.map some).reduceOption = ys := by
    rw [List.reduceOption, List.filterMap_map]
    exact List.filterMap_some
  rw [collect_result_eq, hsteps, Except.map, hall]

end Report

end SoapTypes
