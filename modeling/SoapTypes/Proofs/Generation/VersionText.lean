import SoapTypes.Generation.Error
import SoapTypes.Proofs.Span

/-!
# Texts that ask for a version

A version is asked for by its number. Blanks may stand around the number and zeros behind points at
its end, but no blank between the two. This file shows that the two steps in which a text is read,
trimming first and taking off zeros then, accept exactly these texts.
-/

namespace SoapTypes

namespace Text

/-- A text of blanks only. -/
def Blanks (s : List Char) : Prop := ∀ c ∈ s, isBlank c = true

/-- A text with no blank at its two ends. -/
structure Trimmed (s : List Char) : Prop where
  first : ∀ c ∈ s.head?, isBlank c = false
  last : ∀ c ∈ s.getLast?, isBlank c = false

/-- Trimming at the end takes off blanks until there are none. -/
theorem trimRight_eq_iff {s t : List Char} :
    trimRight s = t ↔ (∀ c ∈ t.getLast?, isBlank c = false) ∧ ∃ after, Blanks after ∧
      s = t ++ after := by
  rw [trimRight, List.reverse_eq_iff, dropWhile_eq_iff, List.head?_reverse]
  refine and_congr_right fun _ => ⟨?_, ?_⟩
  · rintro ⟨after, hafter, hs⟩
    refine ⟨after.reverse, fun c hc => hafter c (List.mem_reverse.1 hc), ?_⟩
    rw [← List.reverse_reverse s, hs, List.reverse_append, List.reverse_reverse]
  · rintro ⟨after, hafter, rfl⟩
    exact ⟨after.reverse, fun c hc => hafter c (List.mem_reverse.1 hc), List.reverse_append⟩

/-- Trimming takes off the blanks around a text. -/
theorem trim_eq_iff {s t : List Char} :
    trim s = t ↔ Trimmed t ∧ ∃ before after, Blanks before ∧ Blanks after ∧
      s = before ++ t ++ after := by
  rw [trim, trimRight_eq_iff]
  constructor
  · rintro ⟨hlast, after, hafter, hdrop⟩
    obtain ⟨hfirst, before, hbefore, rfl⟩ := dropWhile_eq_iff.1 hdrop
    refine ⟨⟨fun c hc => hfirst c ?_, hlast⟩, before, after, hbefore, hafter, ?_⟩
    · rw [List.head?_append, Option.mem_def.1 hc]
      rfl
    · rw [List.append_assoc]
  · rintro ⟨ht, before, after, hbefore, hafter, rfl⟩
    refine ⟨ht.last, ?_⟩
    cases t with
    | nil =>
      -- The first blank behind the text does not stop the trimming at its start.
      refine ⟨[], by simp [Blanks], dropWhile_eq_iff.2 ⟨by simp, before ++ after, ?_, by simp⟩⟩
      exact List.forall_mem_append.2 ⟨hbefore, hafter⟩
    | cons c t =>
      refine ⟨after, hafter, dropWhile_eq_iff.2 ⟨ht.first, before, hbefore, ?_⟩⟩
      rw [List.append_assoc]

end Text

namespace Generation.Version

open Text

/-- Zeros, each behind a point. -/
def zeros (k : ℕ) : List Char := (List.replicate k ['.', '0']).flatten

theorem reverse_zeros (k : ℕ) : (zeros k).reverse = (List.replicate k ['0', '.']).flatten := by
  rw [zeros, List.reverse_flatten, List.map_replicate, List.reverse_replicate]
  rfl

theorem getLast?_zeros_succ (k : ℕ) : (zeros (k + 1)).getLast? = some '0' := by
  rw [← List.head?_reverse, reverse_zeros]
  rfl

/-- Taking off zeros at the start of a reversed number ends when there are none. -/
theorem dropZeros_eq_iff {s t : List Char} :
    dropZeros s = t ↔ (∀ u, t ≠ '0' :: '.' :: u) ∧ ∃ k, s = (zeros k).reverse ++ t := by
  simp only [reverse_zeros]
  constructor
  · rintro rfl
    fun_induction dropZeros s with
    | case1 s ih =>
      obtain ⟨hstop, k, hs⟩ := ih
      refine ⟨hstop, k + 1, ?_⟩
      rw [List.replicate_succ, List.flatten_cons, List.append_assoc, ← hs]
      rfl
    | case2 s hs => exact ⟨hs, 0, rfl⟩
  · rintro ⟨ht, k, rfl⟩
    induction k with
    | zero => exact dropZeros.eq_2 t ht
    | succ k ih => exact ih

/-- A text asks for a version by its number, with zeros behind points at its end and blanks around
both. -/
def AskedBy (v : Version) (text : String) : Prop :=
  ∃ before k after, Blanks before ∧ Blanks after ∧
    text.toList = before ++ (v.number.toList ++ zeros k) ++ after

/-- A version is asked for by its bare number. -/
theorem askedBy_number (v : Version) : v.AskedBy v.number :=
  ⟨[], 0, [], by simp [Blanks], by simp [Blanks], by simp [zeros]⟩

/-- The number of a version does not end in a zero behind a point. -/
theorem reverse_number_ne (v : Version) (u : List Char) :
    v.number.toList.reverse ≠ '0' :: '.' :: u := by
  cases v
  simp [number]

/-- A number with zeros behind points has no blanks at its ends. -/
theorem trimmed_number (v : Version) (k : ℕ) : Trimmed (v.number.toList ++ zeros k) := by
  cases v
  refine ⟨fun c hc => ?_, fun c hc => ?_⟩
  · obtain rfl : '4' = c := Option.some.inj hc
    rfl
  · cases k with
    | zero =>
      obtain rfl : '7' = c := Option.some.inj hc
      rfl
    | succ k =>
      rw [List.getLast?_append, getLast?_zeros_succ] at hc
      obtain rfl : '0' = c := Option.some.inj hc
      rfl

/-- The number found in a text is that of a version exactly if the text asks for the version. -/
theorem written_eq_number_iff {v : Version} {text : String} :
    written text = v.number ↔ v.AskedBy text := by
  have hlist : written text = v.number ↔
      dropZeros (trim text.toList).reverse = v.number.toList.reverse := by
    rw [written, ← List.reverse_eq_iff, String.ext_iff, String.toList_ofList]
  have hzeros : dropZeros (trim text.toList).reverse = v.number.toList.reverse ↔
      ∃ k, trim text.toList = v.number.toList ++ zeros k := by
    rw [dropZeros_eq_iff, and_iff_right v.reverse_number_ne]
    simp only [← List.reverse_append, List.reverse_inj]
  rw [hlist, hzeros, AskedBy]
  simp only [trim_eq_iff, trimmed_number, true_and]
  exact exists_comm

/-- A version is found exactly under its number. -/
theorem ofText?_eq_some_iff {v : Version} {text : String} :
    ofText? text = some v ↔ v.AskedBy text := by
  rw [← written_eq_number_iff]
  constructor
  · intro h
    have hnumber := List.find?_some h
    exact (beq_iff_eq.1 hnumber).symm
  · intro h
    rw [ofText?, h]
    cases v
    decide

theorem ofText_eq_ok_iff {v : Version} {text : String} : ofText text = .ok v ↔ v.AskedBy text := by
  rw [← ofText?_eq_some_iff, ofText]
  cases ofText? text with
  | some w => simp
  | none => simp

/-- **The texts of versions.** A text is read as a version exactly if it is the number of the
version, with any number of zeros behind points at its end and with any blanks around; any other
text is an error that tells the text as it is. -/
theorem ofText_reading (text : String) :
    (∀ v, ofText text = .ok v ↔ v.AskedBy text) ∧
      (ofText text = .error (.unknownVersion text) ↔ ∀ v : Version, ¬ v.AskedBy text) := by
  refine ⟨fun v => ofText_eq_ok_iff, ?_⟩
  simp only [← ofText_eq_ok_iff]
  rw [ofText]
  cases ofText? text with
  | some v => exact iff_of_false (by simp) fun hno => hno v rfl
  | none => simp

/-- A blank inside is not passed over. -/
example : ofText "47 .0" = .error (.unknownVersion "47 .0") := by decide +kernel

end Generation.Version

end SoapTypes
