import Mathlib.Data.List.Chain
import SoapTypes.Proofs.Inheritance.Order
import SoapTypes.Proofs.Writing.Faithful

/-!
# References between interfaces

An interface is declared under the name of its complex type with a capital letter. A base is written
in the same way, so the bases of a sound schema lead from interface to interface, in no circle but
through a name that different types share. A field refers to its type by the bare name and finds the
interface only if the name has its capital letter already.
-/

namespace SoapTypes

open TypeScript Text Relation

/-! ## Fields -/

/-- The name that a type refers to; a union refers to none. -/
def TypeScript.TypeExpr.reference? : TypeExpr → Option String
  | .name n | .array n => some n
  | .union _ => none

/-- A field of a type that is not primitive refers to that type by its bare name. -/
theorem Field.reference?_expr {f : Field} (hprimitive : Primitive.ofName? f.type = none) :
    f.expr.reference? = some f.type := by
  have htype : typeName f.type = f.type := by rw [typeName, hprimitive]
  unfold Field.expr
  split
  · rw [TypeExpr.reference?, htype]
  · rw [TypeExpr.reference?, htype]

/-- An interface has a property for each field. -/
theorem ComplexType.exists_property_of_mem {t : ComplexType} {i : Interface}
    (hi : t.interface = .ok i) {f : Field} (hf : f ∈ t.fields) :
    f.property t.name = .ok ⟨f.name, f.expr⟩ ∧ ⟨f.name, f.expr⟩ ∈ i.properties := by
  obtain ⟨ps, hps, rfl⟩ := ComplexType.interface_eq_ok_iff.1 hi
  obtain ⟨p, hp, hproperty⟩ := exists_mem_of_mapM hps hf
  obtain rfl := Field.property_eq_ok hproperty
  exact ⟨hproperty, hp⟩

/-- An interface has the name of its type with a capital letter. -/
theorem ComplexType.name_interface {t : ComplexType} {i : Interface} (hi : t.interface = .ok i) :
    i.name = capitalize t.name := by
  obtain ⟨_, _, rfl⟩ := ComplexType.interface_eq_ok_iff.1 hi
  rfl

/-- Interfaces have the names of the complex types with capital letters, in their order. -/
theorem map_name_interfaces {s : Schema} {is : List Interface} (his : s.interfaces = .ok is) :
    is.map (·.name) = s.complexTypes.map fun t => capitalize t.name :=
  map_eq_of_mapM his fun _ _ _ hinterface => ComplexType.name_interface hinterface

/-- **References of fields.** A field whose type is not primitive but the name of a complex type
becomes a property that refers to the bare name. The interface of the complex type has the name with
a capital letter, so that the reference finds it exactly if the name begins with its capital. -/
theorem reference_eq_name_iff {s : Schema} {is : List Interface} (his : s.interfaces = .ok is)
    {t u : ComplexType} {f : Field} (ht : t ∈ s.complexTypes) (hf : f ∈ t.fields)
    (hprimitive : Primitive.ofName? f.type = none) (hu : u ∈ s.complexTypes)
    (hname : u.name = f.type) :
    ∃ i ∈ is, ∃ p ∈ i.properties, ∃ j ∈ is, t.interface = .ok i ∧ f.property t.name = .ok p ∧
      u.interface = .ok j ∧ p.type.reference? = some f.type ∧ j.name = capitalize f.type ∧
      (p.type.reference? = some j.name ↔ capitalize f.type = f.type) := by
  obtain ⟨i, hi, hti⟩ := exists_mem_of_mapM his ht
  obtain ⟨j, hj, huj⟩ := exists_mem_of_mapM his hu
  obtain ⟨hproperty, hmem⟩ := ComplexType.exists_property_of_mem hti hf
  have hreference := Field.reference?_expr hprimitive
  have hinterface : j.name = capitalize f.type := by
    rw [ComplexType.name_interface huj, hname]
  refine ⟨i, hi, _, hmem, j, hj, hti, hproperty, huj, hreference, hinterface, ?_⟩
  rw [hreference, hinterface, Option.some.injEq, eq_comm]

/-- A type whose name begins with a small letter, and a type with a field of it. -/
def smallWidget : Schema :=
  ⟨[], [⟨"Box", none, [⟨"parts", "widget", true, false⟩]⟩, ⟨"widget", none, []⟩]⟩

/-- The interfaces of both types. -/
def smallWidgetInterfaces : List Interface :=
  [⟨"Box", none, [⟨"parts", .array "widget"⟩]⟩, ⟨"Widget", none, []⟩]

theorem interfaces_smallWidget : smallWidget.interfaces = .ok smallWidgetInterfaces := by
  decide +kernel

/-- The field refers to `widget`, the interface is `Widget`, as `reference_eq_name_iff` says. -/
theorem smallWidget_reference :
    smallWidget.interfaces = .ok smallWidgetInterfaces ∧
      ∃ i ∈ smallWidgetInterfaces, ∃ p ∈ i.properties, ∃ j ∈ smallWidgetInterfaces,
        p.type.reference? = some "widget" ∧ j.name = "Widget" ∧
          p.type.reference? ≠ some j.name := by
  have hcapital : capitalize "widget" = "Widget" := by decide +kernel
  have hbox : ⟨"Box", none, [⟨"parts", "widget", true, false⟩]⟩ ∈ smallWidget.complexTypes := by
    simp [smallWidget]
  have hwidget : ⟨"widget", none, []⟩ ∈ smallWidget.complexTypes := by simp [smallWidget]
  obtain ⟨i, hi, p, hp, j, hj, -, -, -, hreference, hname, hiff⟩ :=
    reference_eq_name_iff interfaces_smallWidget hbox List.mem_cons_self (by decide) hwidget rfl
  refine ⟨interfaces_smallWidget, i, hi, p, hp, j, hj, hreference, hname.trans hcapital, ?_⟩
  rw [Ne, hiff, hcapital]
  decide

/-- Not every reference to a complex type of a sound schema finds the interface of the type. -/
theorem not_forall_reference_eq_name :
    ¬ ∀ (s : Schema) (is : List Interface), s.validate.result = .ok () → s.interfaces = .ok is →
      ∀ t ∈ s.complexTypes, ∀ f ∈ t.fields, Primitive.ofName? f.type = none →
        ∀ u ∈ s.complexTypes, u.name = f.type → ∀ p j, f.property t.name = .ok p →
          u.interface = .ok j → p.type.reference? = some j.name := by
  intro h
  have hvalid : smallWidget.validate.result = .ok () := by decide +kernel
  have hfound := h smallWidget _ hvalid interfaces_smallWidget
    ⟨"Box", none, [⟨"parts", "widget", true, false⟩]⟩ (by simp [smallWidget])
    ⟨"parts", "widget", true, false⟩ List.mem_cons_self (by decide)
    ⟨"widget", none, []⟩ (by simp [smallWidget]) rfl
    ⟨"parts", .array "widget"⟩ ⟨"Widget", none, []⟩ (by decide) (by decide +kernel)
  exact absurd hfound (by decide)

/-! ## Bases -/

/-- One of the interfaces has the name and extends the base. -/
def Links (is : List Interface) (name base : String) : Prop :=
  ∃ i ∈ is, i.name = name ∧ i.base = some base

/-- The interfaces of two different complex types have the name. -/
def Schema.Shares (s : Schema) (name : String) : Prop :=
  ∃ t ∈ s.complexTypes, ∃ u ∈ s.complexTypes,
    t ≠ u ∧ capitalize t.name = name ∧ capitalize u.name = name

/-- An interface that extends another one comes from a complex type with a base. -/
theorem exists_base_of_links {s : Schema} {is : List Interface} (his : s.interfaces = .ok is)
    {name base : String} (h : Links is name base) :
    ∃ t ∈ s.complexTypes, ∃ b, t.base = some b ∧ capitalize t.name = name ∧
      capitalize b = base := by
  obtain ⟨i, hi, hname, hbase⟩ := h
  obtain ⟨t, ht, hinterface⟩ := exists_of_mem_mapM his hi
  obtain ⟨ps, -, rfl⟩ := ComplexType.interface_eq_ok_iff.1 hinterface
  obtain ⟨b, hb, hcapital⟩ := Option.map_eq_some_iff.1 hbase
  exact ⟨t, ht, b, hb, hname, hcapital⟩

/-- A type whose interface has a name of its own is the first declaration of its name. -/
theorem Schema.complexType?_of_not_shares {s : Schema} {t : ComplexType} (ht : t ∈ s.complexTypes)
    (hown : ¬ s.Shares (capitalize t.name)) : s.complexType? t.name = some t := by
  obtain ⟨u, hmem, hname, hu⟩ := Schema.exists_complexType?_of_mem ht
  by_cases heq : t = u
  · rw [hu, heq]
  · exact absurd ⟨t, ht, u, hmem, heq, rfl, by rw [hname]⟩ hown

/-- From a name of its own a link leads where the type leads: to the name of a type that is
extended. -/
theorem exists_extends_of_links {s : Schema} {is : List Interface}
    (hvalid : s.validate.result = .ok ()) (his : s.interfaces = .ok is) {t : ComplexType}
    (ht : t ∈ s.complexTypes) (hown : ¬ s.Shares (capitalize t.name)) {base : String}
    (h : Links is (capitalize t.name) base) :
    ∃ u ∈ s.complexTypes, capitalize u.name = base ∧ s.Extends t.name u.name := by
  obtain ⟨v, hv, b, hbase, hname, hcapital⟩ := exists_base_of_links his h
  have hsame : v = t := by
    by_contra hne
    exact hown ⟨v, hv, t, ht, hne, hname, rfl⟩
  subst hsame
  have hextends : s.Extends v.name b := by
    rw [Schema.Extends, Schema.baseOf, Schema.complexType?_of_not_shares hv hown, Option.bind_some,
      hbase]
  obtain ⟨u, hu, rfl⟩ := Schema.exists_declaration_of_extends hvalid hextends
  exact ⟨u, hu, hcapital, hextends⟩

/-- A way along links that leaves from names of their own only is a way along bases. -/
theorem exists_transGen_extends_of_links {s : Schema} {is : List Interface}
    (hvalid : s.validate.result = .ok ()) (his : s.interfaces = .ok is) {t : ComplexType}
    (ht : t ∈ s.complexTypes) {name : String}
    (h : TransGen (fun a b => Links is a b ∧ ¬ s.Shares a) (capitalize t.name) name) :
    ∃ u ∈ s.complexTypes, capitalize u.name = name ∧ TransGen s.Extends t.name u.name := by
  induction h with
  | single hlink =>
    obtain ⟨u, hu, hname, hextends⟩ := exists_extends_of_links hvalid his ht hlink.2 hlink.1
    exact ⟨u, hu, hname, .single hextends⟩
  | tail _ hlink ih =>
    obtain ⟨u, hu, rfl, hway⟩ := ih
    obtain ⟨v, hv, hname, hextends⟩ := exists_extends_of_links hvalid his hu hlink.2 hlink.1
    exact ⟨v, hv, hname, hway.tail hextends⟩

/-- Links that leave from names of their own make no circle: it would be a circle of bases. -/
theorem not_transGen_links_self {s : Schema} {is : List Interface}
    (hvalid : s.validate.result = .ok ()) (his : s.interfaces = .ok is) (name : String) :
    ¬ TransGen (fun a b => Links is a b ∧ ¬ s.Shares a) name name := by
  intro hcycle
  obtain ⟨_, ⟨hlink, hown⟩, -⟩ := TransGen.head'_iff.1 hcycle
  obtain ⟨t, ht, _, -, rfl, -⟩ := exists_base_of_links his hlink
  obtain ⟨u, hu, hname, hway⟩ := exists_transGen_extends_of_links hvalid his ht hcycle
  have hsame : u = t := by
    by_contra hne
    exact hown ⟨u, hu, t, ht, hne, hname, rfl⟩
  exact Schema.not_transGen_extends_self hvalid t.name (hsame ▸ hway)

/-- A walk of at least one step along a relation leads from its first member to its last. -/
theorem transGen_of_isChain {α : Type} {r : α → α → Prop} {a b : α} {as : List α}
    (h : (a :: (as ++ [b])).IsChain r) : TransGen r a b := by
  induction as generalizing a with
  | nil => exact .single (List.isChain_cons_cons.1 h).1
  | cons c as ih =>
    obtain ⟨hstep, hrest⟩ := List.isChain_cons_cons.1 h
    exact (ih hrest).head hstep

/-- Interfaces with distinct names share none. -/
theorem not_shares_of_nodup {s : Schema} {is : List Interface} (his : s.interfaces = .ok is)
    (hdistinct : (is.map (·.name)).Nodup) (name : String) : ¬ s.Shares name := by
  rintro ⟨t, ht, u, hu, hne, hname, hname'⟩
  rw [map_name_interfaces his] at hdistinct
  exact hne (List.inj_on_of_nodup_map hdistinct ht hu (hname.trans hname'.symm))

/-- **Circles of interfaces.** On a sound schema every circle of interfaces, each of which extends
the next, passes through a name that the interfaces of two different types share. So there is no
circle if interfaces have distinct names. -/
theorem exists_shares_of_circle {s : Schema} {is : List Interface}
    (hvalid : s.validate.result = .ok ()) (his : s.interfaces = .ok is) :
    (∀ name names, (name :: (names ++ [name])).IsChain (Links is) →
      ∃ shared ∈ name :: names, s.Shares shared) ∧
    ((is.map (·.name)).Nodup → ∀ name, ¬ TransGen (Links is) name name) := by
  constructor
  · intro name names hwalk
    by_contra! hown
    have hway : (name :: (names ++ [name])).IsChain fun a b => Links is a b ∧ ¬ s.Shares a := by
      refine hwalk.imp_of_mem_imp fun a b ha _ hlink => ⟨hlink, hown a ?_⟩
      simpa [or_comm] using ha
    exact not_transGen_links_self hvalid his name (transGen_of_isChain hway)
  · intro hdistinct name hcycle
    have hown (a b : String) (hlink : Links is a b) : Links is a b ∧ ¬ s.Shares a :=
      ⟨hlink, not_shares_of_nodup his hdistinct a⟩
    exact not_transGen_links_self hvalid his name (TransGen.mono hown _ _ hcycle)

/-- Two types that extend each other, each by its second declaration. -/
def secondThoughts : Schema :=
  ⟨[], [⟨"A", none, []⟩, ⟨"A", some "B", []⟩, ⟨"B", none, []⟩, ⟨"B", some "A", []⟩]⟩

/-- The interfaces of all four declarations. -/
def secondThoughtsInterfaces : List Interface :=
  [⟨"A", none, []⟩, ⟨"A", some "B", []⟩, ⟨"B", none, []⟩, ⟨"B", some "A", []⟩]

theorem interfaces_secondThoughts :
    secondThoughts.interfaces = .ok secondThoughtsInterfaces := by
  decide +kernel

theorem validate_secondThoughts : secondThoughts.validate.result = .ok () := by
  decide +kernel

theorem links_secondThoughts :
    Links secondThoughtsInterfaces "A" "B" ∧ Links secondThoughtsInterfaces "B" "A" := by
  constructor
  · exact ⟨⟨"A", some "B", []⟩, by simp [secondThoughtsInterfaces], rfl, rfl⟩
  · exact ⟨⟨"B", some "A", []⟩, by simp [secondThoughtsInterfaces], rfl, rfl⟩

/-- The circle of two interfaces passes through a shared name, as `exists_shares_of_circle` says. -/
theorem secondThoughts_shares :
    secondThoughts.validate.result = .ok () ∧
      secondThoughts.interfaces = .ok secondThoughtsInterfaces ∧
      ["A", "B", "A"].IsChain (Links secondThoughtsInterfaces) ∧
      ∃ shared ∈ ["A", "B"], secondThoughts.Shares shared := by
  have hcircle : ["A", "B", "A"].IsChain (Links secondThoughtsInterfaces) := by
    simpa using links_secondThoughts
  exact ⟨validate_secondThoughts, interfaces_secondThoughts, hcircle,
    (exists_shares_of_circle validate_secondThoughts interfaces_secondThoughts).1 "A" ["B"] hcircle⟩

/-- The interfaces of a sound schema may run in a circle. -/
theorem not_forall_not_transGen_links :
    ¬ ∀ (s : Schema) (is : List Interface), s.validate.result = .ok () → s.interfaces = .ok is →
      ∀ name, ¬ TransGen (Links is) name name := by
  intro h
  obtain ⟨hup, hback⟩ := links_secondThoughts
  exact h secondThoughts _ validate_secondThoughts interfaces_secondThoughts "A"
    (.tail (.single hup) hback)

end SoapTypes
