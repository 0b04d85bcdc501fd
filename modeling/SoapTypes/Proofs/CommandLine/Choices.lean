import SoapTypes.CommandLine.Outcome
import SoapTypes.Proofs.CommandLine.Spelling
import SoapTypes.Proofs.Generation.VersionText

/-!
# Choices on the command line

A choice says which options a call gives and what they are to be. It can be written in many ways:
the options may stand in any order, each in any of its spellings, and the sign that no options
follow may stand at the end. This file shows that all of them are read as the options that were
chosen, and that nothing else is read as a run.
-/

namespace SoapTypes.CommandLine

open Generation

/-- What is chosen for a call. Paths that are given are not empty. -/
structure Choice where
  output : Option String := none
  latest : Bool := false
  version : Option Version := none
  description : Option String := none
  resourceDir : Option String := none
  root : Option String := none
  noTimestamp : Bool := false
  output_ne : output ≠ some "" := by decide
  description_ne : description ≠ some "" := by decide
  resourceDir_ne : resourceDir ≠ some "" := by decide

namespace Choice

/-- The options of a run that are chosen. -/
def options (c : Choice) : Options where
  output := c.output.getD "metadata-types.ts"
  latest := c.latest
  version := c.version
  description := c.description
  resourceDir := c.resourceDir
  root := c.root
  timestamp := !c.noTimestamp

/-- The values that stand for what is chosen for an option: a path or a root itself, any text that
asks for the version, and the empty one for a flag. -/
def Carries (c : Choice) : Setting → String → Prop
  | .output, value => c.output = some value
  | .latest, value => c.latest = true ∧ value = ""
  | .metadataVersion, value => ∃ v, c.version = some v ∧ v.AskedBy value
  | .wsdl, value => c.description = some value
  | .resourceDir, value => c.resourceDir = some value
  | .rootType, value => c.root = some value
  | .noTimestamp, value => c.noTimestamp = true ∧ value = ""

/-- The arguments that a choice can be written as: in some order, each option that is chosen,
spelled with a value that stands for it; perhaps with the sign that no options follow at the end. -/
def Written (c : Choice) (arguments : List String) : Prop :=
  ∃ order groups, order.Nodup ∧ (∀ s, s ∈ order ↔ ∃ value, c.Carries s value) ∧
    List.Forall₂ (fun s group => ∃ value, c.Carries s value ∧ Spelling s value group) order groups ∧
    (arguments = groups.flatten ∨ arguments = groups.flatten ++ ["--"])

/-- A flag that is chosen has no value. -/
theorem Carries.value_eq {c : Choice} {s : Setting} {value : String} (h : c.Carries s value)
    (hs : s.takesValue = false) : value = "" := by
  cases s with
  | latest => exact h.2
  | noTimestamp => exact h.2
  | _ => cases hs

/-- Every choice can be written. -/
theorem exists_written (c : Choice) : ∃ arguments, c.Written arguments := by
  classical
  have hgroup (s : Setting) : ∃ group, (∃ value, c.Carries s value) →
      ∃ value, c.Carries s value ∧ Spelling s value group := by
    by_cases hs : ∃ value, c.Carries s value
    · obtain ⟨value, hvalue⟩ := hs
      obtain ⟨group, hspelling⟩ := exists_spelling hvalue.value_eq
      exact ⟨group, fun _ => ⟨value, hvalue, hspelling⟩⟩
    · exact ⟨[], fun h => absurd h hs⟩
  choose group hgroup using hgroup
  let order := Setting.all.filter fun s => ∃ value, c.Carries s value
  have horder (s : Setting) : s ∈ order ↔ ∃ value, c.Carries s value := by
    simp [order, s.mem_all]
  have hnodup : order.Nodup := List.Nodup.sublist List.filter_sublist (by decide)
  refine ⟨_, order, order.map group, hnodup, horder, ?_, .inl rfl⟩
  rw [List.forall₂_map_right_iff, List.forall₂_same]
  exact fun s hs => hgroup s ((horder s).1 hs)

/-! ## Written choices are read -/

/-- The options when what is chosen for some of the settings has been read. -/
def optionsAfter (c : Choice) (given : List Setting) : Options where
  output := if .output ∈ given then c.options.output else "metadata-types.ts"
  latest := decide (.latest ∈ given) && c.latest
  version := if .metadataVersion ∈ given then c.version else none
  description := if .wsdl ∈ given then c.description else none
  resourceDir := if .resourceDir ∈ given then c.resourceDir else none
  root := if .rootType ∈ given then c.root else none
  timestamp := !(decide (.noTimestamp ∈ given) && c.noTimestamp)

/-- Giving what is chosen for an option changes this option only. -/
theorem give_optionsAfter {c : Choice} {s : Setting} {value : String} (h : c.Carries s value)
    (given : List Setting) :
    give (c.optionsAfter given) s value = .ok (c.optionsAfter (s :: given)) := by
  cases s with
  | output =>
    have hvalue : c.output = some value := h
    have hne : value ≠ "" := by rintro rfl; exact c.output_ne hvalue
    simp [give, optionsAfter, options, hvalue, hne]
  | latest => simp [give, optionsAfter, h.1]
  | metadataVersion =>
    obtain ⟨v, hv, hasked⟩ := h
    simp [give, optionsAfter, hv, Version.ofText_eq_ok_iff.2 hasked]
  | wsdl =>
    have hvalue : c.description = some value := h
    have hne : value ≠ "" := by rintro rfl; exact c.description_ne hvalue
    simp [give, optionsAfter, hvalue, hne]
  | resourceDir =>
    have hvalue : c.resourceDir = some value := h
    have hne : value ≠ "" := by rintro rfl; exact c.resourceDir_ne hvalue
    simp [give, optionsAfter, hvalue, hne]
  | rootType =>
    have hvalue : c.root = some value := h
    simp [give, optionsAfter, hvalue]
  | noTimestamp => simp [give, optionsAfter, h.1]

theorem ite_none_eq {α : Type} {p : Prop} [Decidable p] {x : Option α} (h : ∀ a, x = some a → p) :
    (if p then x else none) = x := by
  cases x with
  | none => simp
  | some a => rw [if_pos (h a rfl)]

theorem decide_and_eq {p : Prop} [Decidable p] {b : Bool} (h : b = true → p) :
    (decide p && b) = b := by
  cases b with
  | false => rw [Bool.and_false]
  | true => rw [decide_eq_true (h rfl), Bool.and_true]

/-- When everything that is chosen has been read, the options are those that are chosen. -/
theorem optionsAfter_eq {c : Choice} {given : List Setting}
    (h : ∀ s value, c.Carries s value → s ∈ given) : c.optionsAfter given = c.options := by
  have houtput : (if .output ∈ given then c.options.output else "metadata-types.ts") =
      c.options.output := by
    split
    · rfl
    · next hmem =>
      cases hpath : c.output with
      | none => rw [options, hpath]; rfl
      | some path => exact absurd (h .output path hpath) hmem
  rw [optionsAfter, houtput, decide_and_eq fun hlatest => h .latest "" ⟨hlatest, rfl⟩,
    ite_none_eq fun v hv => h .metadataVersion v.number ⟨v, hv, v.askedBy_number⟩,
    ite_none_eq (h .wsdl), ite_none_eq (h .resourceDir), ite_none_eq (h .rootType),
    decide_and_eq fun hno => h .noTimestamp "" ⟨hno, rfl⟩]
  rfl

/-- Groups of arguments that spell what is chosen for settings not given before are read as what is
chosen for them. -/
theorem parseFrom_flatten {c : Choice} {order : List Setting} {groups : List (List String)}
    (hgroups : List.Forall₂ (fun s group => ∃ value, c.Carries s value ∧ Spelling s value group)
      order groups) {given : List Setting} (hnodup : order.Nodup) (hnew : ∀ s ∈ order, s ∉ given)
    (behind : List String) :
    parseFrom given (c.optionsAfter given) (groups.flatten ++ behind) =
      parseFrom (order.reverse ++ given) (c.optionsAfter (order.reverse ++ given)) behind := by
  induction hgroups generalizing given with
  | nil => rfl
  | @cons s group order groups hgroup _ ih =>
    obtain ⟨value, hvalue, hspelling⟩ := hgroup
    obtain ⟨hs, hnodup⟩ := List.nodup_cons.1 hnodup
    have hfirst : giveOnce given (c.optionsAfter given) s value =
        .ok (c.optionsAfter (s :: given)) :=
      giveOnce_eq_ok_iff.2 ⟨hnew s List.mem_cons_self, give_optionsAfter hvalue given⟩
    have hnew' : ∀ t ∈ order, t ∉ s :: given := fun t ht hmem => by
      rcases List.mem_cons.1 hmem with rfl | hmem
      · exact hs ht
      · exact hnew t (List.mem_cons_of_mem s ht) hmem
    rw [List.flatten_cons, List.append_assoc, parseFrom_append hspelling, hfirst, List.reverse_cons,
      List.append_assoc, List.singleton_append]
    exact ih hnodup hnew'

/-- A choice that is written is read as the options that are chosen. -/
theorem Written.parse {c : Choice} {arguments : List String} (h : c.Written arguments) :
    parse arguments = .ok (.run c.options) := by
  obtain ⟨order, groups, hnodup, horder, hgroups, harguments⟩ := h
  have hread (behind : List String) : CommandLine.parse (groups.flatten ++ behind) =
      parseFrom order.reverse c.options behind := by
    have hnone : c.optionsAfter [] = {} := rfl
    have hall : c.optionsAfter order.reverse = c.options :=
      optionsAfter_eq fun s value hvalue => List.mem_reverse.2 ((horder s).2 ⟨value, hvalue⟩)
    have hnew : ∀ s ∈ order, s ∉ [] := fun s _ => List.not_mem_nil
    have hrun := parseFrom_flatten hgroups hnodup hnew behind
    rwa [hnone, List.append_nil, hall] at hrun
  rcases harguments with rfl | rfl
  · rw [← List.append_nil groups.flatten, hread]
    rfl
  · rw [hread]
    rfl

/-! ## What is read is written -/

/-- Two choices are the same for a setting. -/
def SameFor (s : Setting) (c c' : Choice) : Prop :=
  ∀ value, c.Carries s value ↔ c'.Carries s value

/-- An option that is given can be added to a choice that does not have it. -/
theorem exists_options_of_give {c : Choice} {s : Setting} {value : String} {o : Options}
    (hflag : s.takesValue = false → value = "") (h : give c.options s value = .ok o) :
    ∃ c' : Choice, c'.options = o ∧ c'.Carries s value ∧ ∀ t, t ≠ s → SameFor t c' c := by
  cases s with
  | output =>
    have hne : value ≠ "" := by rintro rfl; cases h
    obtain rfl : { c.options with output := value } = o := by simpa [give, hne] using h
    refine ⟨{ c with output := some value, output_ne := by simpa using hne }, rfl, rfl,
      fun t ht v => ?_⟩
    cases t with
    | output => exact absurd rfl ht
    | _ => rfl
  | latest =>
    obtain rfl := hflag rfl
    obtain rfl : { c.options with latest := true } = o := Except.ok.inj h
    refine ⟨{ c with latest := true }, rfl, ⟨rfl, rfl⟩, fun t ht v => ?_⟩
    cases t with
    | latest => exact absurd rfl ht
    | _ => rfl
  | metadataVersion =>
    rw [give] at h
    split at h
    · next v hv =>
      obtain rfl := Except.ok.inj h
      refine ⟨{ c with version := some v }, rfl, ⟨v, rfl, Version.ofText_eq_ok_iff.1 hv⟩,
        fun t ht v => ?_⟩
      cases t with
      | metadataVersion => exact absurd rfl ht
      | _ => rfl
    · cases h
  | wsdl =>
    have hne : value ≠ "" := by rintro rfl; cases h
    obtain rfl : { c.options with description := some value } = o := by simpa [give, hne] using h
    refine ⟨{ c with description := some value, description_ne := by simpa using hne }, rfl, rfl,
      fun t ht v => ?_⟩
    cases t with
    | wsdl => exact absurd rfl ht
    | _ => rfl
  | resourceDir =>
    have hne : value ≠ "" := by rintro rfl; cases h
    obtain rfl : { c.options with resourceDir := some value } = o := by simpa [give, hne] using h
    refine ⟨{ c with resourceDir := some value, resourceDir_ne := by simpa using hne }, rfl, rfl,
      fun t ht v => ?_⟩
    cases t with
    | resourceDir => exact absurd rfl ht
    | _ => rfl
  | rootType =>
    obtain rfl : { c.options with root := some value } = o := Except.ok.inj h
    refine ⟨{ c with root := some value }, rfl, rfl, fun t ht v => ?_⟩
    cases t with
    | rootType => exact absurd rfl ht
    | _ => rfl
  | noTimestamp =>
    obtain rfl := hflag rfl
    obtain rfl : { c.options with timestamp := false } = o := Except.ok.inj h
    refine ⟨{ c with noTimestamp := true }, rfl, ⟨rfl, rfl⟩, fun t ht v => ?_⟩
    cases t with
    | noTimestamp => exact absurd rfl ht
    | _ => rfl

/-- The arguments that what is chosen can be written as if some of the options have been given. -/
def WrittenBehind (c : Choice) (given : List Setting) (arguments : List String) : Prop :=
  ∃ order groups, order.Nodup ∧ (∀ s, s ∈ order ↔ s ∉ given ∧ ∃ value, c.Carries s value) ∧
    List.Forall₂ (fun s group => ∃ value, c.Carries s value ∧ Spelling s value group) order groups ∧
    (arguments = groups.flatten ∨ arguments = groups.flatten ++ ["--"])

/-- The options that stand first are written before the others. -/
theorem WrittenBehind.append {c : Choice} {given : List Setting} {s : Setting} {value : String}
    {group rest : List String} (hs : s ∉ given) (hvalue : c.Carries s value)
    (hspelling : Spelling s value group) (h : c.WrittenBehind (s :: given) rest) :
    c.WrittenBehind given (group ++ rest) := by
  obtain ⟨order, groups, hnodup, horder, hgroups, hrest⟩ := h
  have hnotMem : s ∉ order := fun hmem => ((horder s).1 hmem).1 List.mem_cons_self
  refine ⟨s :: order, group :: groups, List.nodup_cons.2 ⟨hnotMem, hnodup⟩, fun t => ?_,
    .cons ⟨value, hvalue, hspelling⟩ hgroups, ?_⟩
  · by_cases ht : t = s
    · subst ht
      exact iff_of_true List.mem_cons_self ⟨hs, value, hvalue⟩
    · simp [horder, ht]
  · rw [List.flatten_cons, List.append_assoc]
    exact hrest.imp (congrArg (group ++ ·)) (congrArg (group ++ ·))

/-- A reading that ends in a run has read what is written for some choice, and this choice keeps
what was chosen for the options given before. -/
theorem exists_writtenBehind {c : Choice} {given : List Setting} {arguments : List String}
    {o : Options} (hgiven : ∀ s value, c.Carries s value → s ∈ given)
    (h : parseFrom given c.options arguments = .ok (.run o)) :
    ∃ c' : Choice, c'.options = o ∧ (∀ s ∈ given, SameFor s c' c) ∧
      c'.WrittenBehind given arguments := by
  induction hlength : arguments.length using Nat.strong_induction_on
    generalizing c given arguments with
  | _ n ih =>
    rcases parseFrom_cases h with
      ⟨hend, rfl⟩ | ⟨s, value, group, rest, rfl, hspelling, hs, o₁, hgive, hrest⟩
    · refine ⟨c, rfl, fun s _ value => Iff.rfl, [], [], List.nodup_nil, fun s => ?_, .nil, hend⟩
      refine iff_of_false List.not_mem_nil ?_
      rintro ⟨hs, value, hvalue⟩
      exact hs (hgiven s value hvalue)
    · obtain ⟨c₁, rfl, hvalue, hsame⟩ := exists_options_of_give hspelling.value_eq hgive
      have hgiven₁ : ∀ t v, c₁.Carries t v → t ∈ s :: given := fun t v hv => by
        by_cases ht : t = s
        · exact List.mem_cons.2 (.inl ht)
        · exact List.mem_cons_of_mem s (hgiven t v ((hsame t ht v).1 hv))
      have hshorter : rest.length < n := by
        have := hspelling.length_pos
        rw [← hlength, List.length_append]
        omega
      obtain ⟨c', ho, hsame', hwritten⟩ := ih _ hshorter hgiven₁ hrest rfl
      refine ⟨c', ho, fun t ht v => ?_, hwritten.append hs
        ((hsame' s List.mem_cons_self value).2 hvalue) hspelling⟩
      have hne : t ≠ s := fun heq => hs (heq ▸ ht)
      exact (hsame' t (List.mem_cons_of_mem s ht) v).trans (hsame t hne v)

/-- Arguments that are read as a run are written for a choice of its options. -/
theorem exists_written_of_parse {arguments : List String} {o : Options}
    (h : CommandLine.parse arguments = .ok (.run o)) :
    ∃ c : Choice, c.Written arguments ∧ c.options = o := by
  have hnone : ∀ s value, ({} : Choice).Carries s value → s ∈ [] := fun s value hvalue => by
    cases s <;> simp [Carries] at hvalue
  obtain ⟨c, ho, -, order, groups, hnodup, horder, hgroups, harguments⟩ :=
    exists_writtenBehind hnone h
  refine ⟨c, ⟨order, groups, hnodup, fun s => ?_, hgroups, harguments⟩, ho⟩
  rw [horder, and_iff_right List.not_mem_nil]

/-- **Arguments and choices.** However a choice is written, the arguments are read as a run with the
options that are chosen. Nothing else is read as a run with these options, and a call does the same
in whichever way the choice is written: it reads the same description, lists the same family, tells
the same time and writes the same file. -/
theorem parse_of_written {c : Choice} {arguments : List String} (h : c.Written arguments) :
    CommandLine.parse arguments = .ok (.run c.options) ∧
      (∀ arguments', CommandLine.parse arguments' = .ok (.run c.options) ↔
        ∃ c' : Choice, c'.Written arguments' ∧ c'.options = c.options) ∧
      ∀ arguments', c.Written arguments' → ∀ store env,
        call store env arguments' = call store env arguments := by
  refine ⟨h.parse, fun arguments' => ⟨exists_written_of_parse, ?_⟩,
    fun arguments' h' store env => ?_⟩
  · rintro ⟨c', h', ho⟩
    rw [h'.parse, ho]
  · rw [call, call, h'.parse, h.parse]

/-- A choice of everything, with values that look like options or are empty where they may be. -/
def awkwardChoice : Choice :=
  { output := some "-=x", latest := true, version := some .v47, description := some "-",
    resourceDir := some "a=b", root := some "", noTimestamp := true }

/-- One way to write this choice. -/
def awkwardArguments : List String :=
  ["--root-type=", "-o-=x", "--wsdl", "-", "--no-timestamp", "--metadata-version", " 47.0.0",
    "--latest", "--resource-dir=a=b", "--"]

/-- All that is chosen is read from these arguments, as `parse_of_written` says. -/
theorem awkwardChoice_parse :
    awkwardChoice.Written awkwardArguments ∧
      CommandLine.parse awkwardArguments = .ok (.run
        { output := "-=x", latest := true, version := some .v47, description := some "-",
          resourceDir := some "a=b", root := some "", timestamp := false }) := by
  have hversion : Version.v47.AskedBy " 47.0.0" := Version.ofText_eq_ok_iff.1 (by decide +kernel)
  have hgroups : List.Forall₂
      (fun s group => ∃ value, awkwardChoice.Carries s value ∧ Spelling s value group)
      [.rootType, .output, .wsdl, .noTimestamp, .metadataVersion, .latest, .resourceDir] _ :=
    .cons ⟨"", rfl, .attached rfl (.longEquals .rootType "")⟩ <|
    .cons ⟨"-=x", rfl, .attached rfl (.shortJoined (by decide) (by decide))⟩ <|
    .cons ⟨"-", rfl, .apart rfl (.long .wsdl) (.inr rfl)⟩ <|
    .cons ⟨"", ⟨rfl, rfl⟩, .flag rfl (.long .noTimestamp)⟩ <|
    .cons ⟨" 47.0.0", ⟨.v47, rfl, hversion⟩,
      .apart rfl (.long .metadataVersion) (.inl (by decide))⟩ <|
    .cons ⟨"", ⟨rfl, rfl⟩, .flag rfl (.long .latest)⟩ <|
    .cons ⟨"a=b", rfl, .attached rfl (.longEquals .resourceDir "a=b")⟩ .nil
  have hall : ∀ s, s ∈ [Setting.rootType, .output, .wsdl, .noTimestamp, .metadataVersion, .latest,
      .resourceDir] ↔ ∃ value, awkwardChoice.Carries s value := fun s => by
    cases s with
    | metadataVersion => exact iff_of_true (by decide) ⟨" 47.0.0", .v47, rfl, hversion⟩
    | latest => exact iff_of_true (by decide) ⟨"", rfl, rfl⟩
    | noTimestamp => exact iff_of_true (by decide) ⟨"", rfl, rfl⟩
    | _ => exact iff_of_true (by decide) ⟨_, rfl⟩
  have hwritten : awkwardChoice.Written awkwardArguments :=
    ⟨_, _, by decide, hall, hgroups, .inr (by decide)⟩
  exact ⟨hwritten, (parse_of_written hwritten).1⟩

end Choice

end SoapTypes.CommandLine
