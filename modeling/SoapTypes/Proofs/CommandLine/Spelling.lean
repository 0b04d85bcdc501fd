import SoapTypes.CommandLine.Arguments
import SoapTypes.Proofs.Span
import SoapTypes.Proofs.Traversal

/-!
# How options are spelled

An option stands in the arguments of a call under its name or, the output, under its letter. Its
value follows in the same argument or in the next one. This file says which arguments are read as an
option and how many of them one step of the reading takes.
-/

namespace SoapTypes.CommandLine

open Generation

namespace Setting

/-- An option is found under its name and under no other. -/
theorem find?_all_eq_some_iff {n : String} {s : Setting} :
    all.find? (·.name == n) = some s ↔ s.name = n := by
  constructor
  · intro h
    simpa using List.find?_some h
  · rintro rfl
    cases s <;> decide

theorem mem_all (s : Setting) : s ∈ all := by
  cases s <;> decide

theorem equals_notMem_name (s : Setting) : '=' ∉ s.name.toList := by
  cases s <;> decide

theorem toList_name_ne_nil (s : Setting) : s.name.toList ≠ [] := by
  cases s <;> decide

end Setting

/-- The arguments that give an option, by itself or together with its value. -/
inductive Names : Setting → Option String → String → Prop
  | long (s : Setting) : Names s none ("--" ++ s.name)
  | longEquals (s : Setting) (value : String) :
      Names s (some value) ("--" ++ s.name ++ "=" ++ value)
  | short : Names .output none "-o"
  | shortEquals (value : String) : Names .output (some value) ("-o=" ++ value)
  | shortJoined {value : String} (hne : value ≠ "") (hfirst : value.toList.head? ≠ some '=') :
      Names .output (some value) ("-o" ++ value)

namespace Argument

/-- What stands behind the name of an option in the same argument. -/
def attachedText : Option String → List Char
  | none => []
  | some value => '=' :: value.toList

/-- An argument behind two dashes gives an option exactly if it is the name of the option, alone or
with an equals sign and the value behind it. -/
theorem ofLong_eq_setting_iff {body : List Char} {s : Setting} {attached : Option String} :
    ofLong body = .setting s attached ↔ body = s.name.toList ++ attachedText attached := by
  constructor
  · intro h
    have hbody := List.takeWhile_append_dropWhile (p := (· != '=')) (l := body)
    unfold ofLong at h
    extract_lets name given at h
    have hgiven : attachedText given = body.dropWhile (· != '=') := by
      cases hdrop : body.dropWhile (· != '=') with
      | nil => simp [given, hdrop, attachedText]
      | cons c value =>
        obtain ⟨-, -, hc⟩ := eq_append_of_dropWhile hdrop
        obtain rfl : c = '=' := by simpa using hc
        simp [given, hdrop, attachedText]
    split at h
    · next s' hfind =>
      obtain ⟨rfl, rfl⟩ := Argument.setting.inj h
      rw [Setting.find?_all_eq_some_iff.1 hfind, String.toList_ofList, hgiven, hbody]
    · split at h
      · cases h
      · split at h <;> cases h
    · cases h
  · rintro rfl
    have hname : ∀ c ∈ s.name.toList, (c != '=') = true := fun c hc => by
      simpa using fun h : c = '=' => s.equals_notMem_name (h ▸ hc)
    have hfind : Setting.all.find? (·.name == s.name) = some s :=
      Setting.find?_all_eq_some_iff.2 rfl
    unfold ofLong
    cases attached with
    | none =>
      rw [attachedText, List.append_nil, List.takeWhile_eq_self_iff.2 hname,
        List.dropWhile_eq_nil_iff.2 hname]
      simp only [String.ofList_toList, hfind]
    | some value =>
      rw [attachedText, takeWhile_append_cons hname (by decide),
        dropWhile_append_cons hname (by decide)]
      simp only [String.ofList_toList, hfind]

theorem ofText_long {text : String} {body : List Char} (htext : text.toList = '-' :: '-' :: body)
    (hbody : body ≠ []) : ofText text = ofLong body := by
  unfold ofText
  rw [htext]
  cases body with
  | nil => exact absurd rfl hbody
  | cons c body => rfl

theorem ofText_short {text : String} {letter : Char} {rest : List Char}
    (htext : text.toList = '-' :: letter :: rest) (hletter : letter ≠ '-') :
    ofText text = ofShort letter rest := by
  unfold ofText
  rw [htext]
  split
  · next h => exact absurd (List.cons.inj (List.cons.inj h).2).1 hletter
  · next h => exact absurd (List.cons.inj (List.cons.inj h).2).1 hletter
  · next h =>
    obtain ⟨rfl, rfl⟩ := List.cons.inj (List.cons.inj h).2
    rfl
  · next h => exact absurd rfl (h _ _)

/-- An argument behind one dash gives an option only by the letter of the output. -/
theorem names_of_ofShort {text : String} {letter : Char} {rest : List Char} {s : Setting}
    {attached : Option String} (htext : text.toList = '-' :: letter :: rest)
    (h : ofShort letter rest = .setting s attached) : Names s attached text := by
  unfold ofShort at h
  split at h
  · obtain ⟨rfl, rfl⟩ := Argument.setting.inj h
    obtain rfl : text = "-o" := String.ext_iff.2 htext
    exact .short
  · next value =>
    obtain ⟨rfl, rfl⟩ := Argument.setting.inj h
    obtain rfl : text = "-o=" ++ String.ofList value := String.ext_iff.2 (by simp [htext])
    exact .shortEquals _
  · next hnil hequals =>
    obtain ⟨rfl, rfl⟩ := Argument.setting.inj h
    obtain rfl : text = "-o" ++ String.ofList rest := String.ext_iff.2 (by simp [htext])
    refine .shortJoined (fun hempty => hnil ?_) fun hfirst => ?_
    · simpa using congrArg String.toList hempty
    · rw [String.toList_ofList] at hfirst
      cases rest with
      | nil => cases hfirst
      | cons c value =>
        obtain rfl := Option.some.inj hfirst
        exact hequals value rfl
  · cases h
  · cases h
  · cases h

/-- The arguments that are read as options are those that give one. -/
theorem ofText_eq_setting_iff {text : String} {s : Setting} {attached : Option String} :
    ofText text = .setting s attached ↔ Names s attached text := by
  constructor
  · intro h
    unfold ofText at h
    split at h
    · cases h
    · next body htext =>
      have hbody := ofLong_eq_setting_iff.1 h
      cases attached with
      | none =>
        obtain rfl : text = "--" ++ s.name :=
          String.ext_iff.2 (by simp [htext, hbody, attachedText])
        exact .long s
      | some value =>
        obtain rfl : text = "--" ++ s.name ++ "=" ++ value :=
          String.ext_iff.2 (by simp [htext, hbody, attachedText])
        exact .longEquals s value
    · next letter rest _ _ htext => exact names_of_ofShort htext h
    · cases h
  · rintro (_ | ⟨_, value⟩ | _ | value | ⟨hne, hfirst⟩)
    · have htext : ("--" ++ s.name).toList = '-' :: '-' :: s.name.toList := by simp
      rw [ofText_long htext s.toList_name_ne_nil, ofLong_eq_setting_iff, attachedText,
        List.append_nil]
    · have htext : ("--" ++ s.name ++ "=" ++ value).toList =
          '-' :: '-' :: (s.name.toList ++ '=' :: value.toList) := by simp
      rw [ofText_long htext (by simp), ofLong_eq_setting_iff, attachedText]
    · rfl
    · have htext : ("-o=" ++ value).toList = '-' :: 'o' :: '=' :: value.toList := by simp
      rw [ofText_short htext (by decide), ofShort, String.ofList_toList]
    · next value =>
      have htext : ("-o" ++ value).toList = '-' :: 'o' :: value.toList := by simp
      rw [ofText_short htext (by decide), ofShort.eq_3, String.ofList_toList]
      · exact fun hnil => hne (String.toList_eq_nil_iff.1 hnil)
      · exact fun rest hrest => hfirst (by rw [hrest]; rfl)

/-- Two dashes alone are the sign that no options follow. -/
theorem ofText_eq_lastOption_iff {text : String} : ofText text = .lastOption ↔ text = "--" := by
  constructor
  · intro h
    unfold ofText at h
    split at h
    · next htext => exact String.ext_iff.2 htext
    · next body htext =>
      unfold ofLong at h
      extract_lets at h
      split at h
      · cases h
      · split at h
        · cases h
        · split at h <;> cases h
      · cases h
    · unfold ofShort at h
      split at h <;> cases h
    · cases h
  · rintro rfl
    rfl

end Argument

/-! ## One step of the reading -/

/-- The arguments that give an option together with its value. Flags have the empty value. -/
inductive Spelling : Setting → String → List String → Prop
  | flag {s : Setting} {text : String} (hs : s.takesValue = false) (htext : Names s none text) :
      Spelling s "" [text]
  | attached {s : Setting} {value text : String} (hs : s.takesValue = true)
      (htext : Names s (some value) text) : Spelling s value [text]
  | apart {s : Setting} {value text : String} (hs : s.takesValue = true) (htext : Names s none text)
      (hvalue : value.toList.head? ≠ some '-' ∨ value = "-") : Spelling s value [text, value]

/-- The value of a flag is empty. -/
theorem Spelling.value_eq {s : Setting} {value : String} {group : List String}
    (h : Spelling s value group) (hs : s.takesValue = false) : value = "" := by
  cases h with
  | flag _ _ => rfl
  | attached htakes _ => rw [hs] at htakes; cases htakes
  | apart htakes _ _ => rw [hs] at htakes; cases htakes

/-- Every value can be spelled, also one that looks like an option. -/
theorem exists_spelling {s : Setting} {value : String} (h : s.takesValue = false → value = "") :
    ∃ group, Spelling s value group := by
  cases hs : s.takesValue with
  | false =>
    obtain rfl := h hs
    exact ⟨["--" ++ s.name], .flag hs (.long s)⟩
  | true => exact ⟨["--" ++ s.name ++ "=" ++ value], .attached hs (.longEquals s value)⟩

theorem Spelling.length_pos {s : Setting} {value : String} {group : List String}
    (h : Spelling s value group) : 0 < group.length := by
  cases h <;> simp

theorem canBeValue_iff {value : String} :
    canBeValue value = true ↔ value.toList.head? ≠ some '-' ∨ value = "-" := by
  simp [canBeValue, or_comm]

/-- The arguments of an option are taken in one step. -/
theorem parseFrom_append {s : Setting} {value : String} {group : List String}
    (h : Spelling s value group) (given : List Setting) (o : Options) (rest : List String) :
    parseFrom given o (group ++ rest) =
      (giveOnce given o s value).bind fun o => parseFrom (s :: given) o rest := by
  cases h with
  | flag hs htext =>
    rw [List.singleton_append, parseFrom.eq_def]
    simp [Argument.ofText_eq_setting_iff.2 htext, hs]
  | attached hs htext =>
    rw [List.singleton_append, parseFrom.eq_def]
    simp [Argument.ofText_eq_setting_iff.2 htext, hs]
  | apart hs htext hvalue =>
    rw [List.cons_append, List.singleton_append, parseFrom.eq_def]
    simp [Argument.ofText_eq_setting_iff.2 htext, hs, canBeValue_iff.2 hvalue]

theorem giveOnce_eq_ok_iff {given : List Setting} {o o' : Options} {s : Setting} {value : String} :
    giveOnce given o s value = .ok o' ↔ s ∉ given ∧ give o s value = .ok o' := by
  unfold giveOnce
  split
  · next hs => simp [hs]
  · next hs => simp [hs]

/-- A reading that ends in a run either is at its end or takes the arguments of an option that has
not been given before. -/
theorem parseFrom_cases {given : List Setting} {o o' : Options} {arguments : List String}
    (h : parseFrom given o arguments = .ok (.run o')) :
    ((arguments = [] ∨ arguments = ["--"]) ∧ o = o') ∨
      ∃ s value group rest, arguments = group ++ rest ∧ Spelling s value group ∧ s ∉ given ∧
        ∃ o₁, give o s value = .ok o₁ ∧ parseFrom (s :: given) o₁ rest = .ok (.run o') := by
  cases arguments with
  | nil =>
    rw [parseFrom] at h
    obtain rfl := Command.run.inj (Except.ok.inj h)
    exact .inl ⟨.inl rfl, rfl⟩
  | cons text rest =>
    rw [parseFrom.eq_def] at h
    simp only at h
    split at h
    · cases h
    · cases h
    · next htext =>
      obtain rfl := Argument.ofText_eq_lastOption_iff.1 htext
      split at h
      · obtain rfl := Command.run.inj (Except.ok.inj h)
        exact .inl ⟨.inr rfl, rfl⟩
      · cases h
    · cases h
    · next s attached htext =>
      have hnames := Argument.ofText_eq_setting_iff.1 htext
      right
      -- The three ways in which an option is taken differ in the arguments that belong to it only.
      have hstep {value : String} {group behind : List String}
          (hgroup : text :: rest = group ++ behind) (hspelling : Spelling s value group)
          (hrun : ((giveOnce given o s value).bind fun o => parseFrom (s :: given) o behind) =
            .ok (.run o')) :
          ∃ s value group rest', text :: rest = group ++ rest' ∧ Spelling s value group ∧
            s ∉ given ∧ ∃ o₁, give o s value = .ok o₁ ∧ parseFrom (s :: given) o₁ rest' = .ok (.run o') := by
        obtain ⟨o₁, hgive, hrest⟩ := except_bind_eq_ok_iff.1 hrun
        obtain ⟨hnew, hgive⟩ := giveOnce_eq_ok_iff.1 hgive
        exact ⟨s, value, group, behind, hgroup, hspelling, hnew, o₁, hgive, hrest⟩
      split at h
      · next hs =>
        split at h
        · exact hstep rfl (.attached hs hnames) h
        · split at h
          · next hvalue => exact hstep rfl (.apart hs hnames (canBeValue_iff.1 hvalue)) h
          · cases h
        · cases h
      · next hs =>
        split at h
        · cases h
        · exact hstep rfl (.flag (by simpa using hs) hnames) h

end SoapTypes.CommandLine
