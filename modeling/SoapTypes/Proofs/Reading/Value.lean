import SoapTypes.Proofs.Reading.Scan
import SoapTypes.Proofs.Traversal
import SoapTypes.Xml.Document

/-!
# Written values

A value is written with four of its characters as named references, so that neither its own quotes
nor what looks like a tag or a reference can be taken for markup. Resolving the references of a
written value gives the value back, whatever its characters are.
-/

namespace SoapTypes.Xml

/-- How a character of a value is written. -/
def escapeChar : Char → List Char
  | '&' => ['&', 'a', 'm', 'p', ';']
  | '<' => ['&', 'l', 't', ';']
  | '>' => ['&', 'g', 't', ';']
  | '"' => ['&', 'q', 'u', 'o', 't', ';']
  | c => [c]

/-- How a value is written between its quotes. -/
def escapeValue (value : String) : List Char :=
  value.toList.flatMap escapeChar

/-- A written value does not end before its closing quote. -/
theorem quote_notMem_escapeValue (value : String) : '"' ∉ escapeValue value := by
  intro hmem
  obtain ⟨c, -, hc⟩ := List.mem_flatMap.1 hmem
  unfold escapeChar at hc
  split at hc
  · exact absurd hc (by decide)
  · exact absurd hc (by decide)
  · exact absurd hc (by decide)
  · exact absurd hc (by decide)
  · rename_i hquote
    exact hquote (List.mem_singleton.1 hc).symm

/-- A reference is resolved by itself. -/
theorem unescapeFrom_reference {size start : ℕ} {body rest : List Char} {c : Char}
    (hbody : body.all (fun d => d != '&' && d != ';') = true)
    (hc : referredChar (start + 1) body = .ok c) :
    unescapeFrom size start ('&' :: (body ++ ';' :: rest)) =
      (unescapeFrom size (start + 1 + byteLength body + 1) rest).map (c :: ·) := by
  have htake : (body ++ ';' :: rest).takeWhile (fun d => d != '&' && d != ';') = body :=
    takeWhile_append_cons (List.all_eq_true.1 hbody) rfl
  have hdrop : (body ++ ';' :: rest).dropWhile (fun d => d != '&' && d != ';') = ';' :: rest :=
    dropWhile_append_cons (List.all_eq_true.1 hbody) rfl
  rw [unescapeFrom, if_pos rfl]
  simp only [htake]
  split
  · rename_i hs
    obtain rfl := (List.cons.inj (hdrop.symm.trans hs)).2
    rw [hc]
    rfl
  · rename_i hs
    exact absurd hdrop (hs rest)

/-- Every other character stands for itself. -/
theorem unescapeFrom_cons {size start : ℕ} {c : Char} {s : List Char} (hc : c ≠ '&') :
    unescapeFrom size start (c :: s) =
      (unescapeFrom size (start + c.utf8Size) s).map (c :: ·) := by
  rw [unescapeFrom, if_neg hc]

/-- Resolving undoes writing, wherever a value begins. -/
theorem unescapeFrom_flatMap_escapeChar (size start : ℕ) (value : List Char) :
    unescapeFrom size start (value.flatMap escapeChar) = .ok value := by
  induction value generalizing start with
  | nil => rw [List.flatMap_nil, unescapeFrom]
  | cons c value ih =>
    have hreference (body : List Char) (hbody : body.all (fun d => d != '&' && d != ';') = true)
        (hc : referredChar (start + 1) body = .ok c) :
        unescapeFrom size start ('&' :: (body ++ ';' :: value.flatMap escapeChar)) =
          .ok (c :: value) := by
      rw [unescapeFrom_reference hbody hc, ih]
      rfl
    rw [List.flatMap_cons]
    unfold escapeChar
    split
    · exact hreference ['a', 'm', 'p'] (by decide) rfl
    · exact hreference ['l', 't'] (by decide) rfl
    · exact hreference ['g', 't'] (by decide) rfl
    · exact hreference ['q', 'u', 'o', 't'] (by decide) rfl
    · rename_i hc _ _ _
      rw [List.singleton_append, unescapeFrom_cons hc]
      have hrest := ih (start + c.utf8Size)
      unfold escapeChar at hrest
      rw [hrest]
      rfl

/-- An attribute with its value as it is written. -/
def writtenAttribute (a : Attribute) : RawAttribute := ⟨a.1, String.ofList (escapeValue a.2)⟩

/-- Resolving gives the attribute back that has been written. -/
theorem resolve_writtenAttribute (a : Attribute) : (writtenAttribute a).resolve = .ok a := by
  have hvalue : unescape (writtenAttribute a).value = .ok a.2 := by
    rw [unescape, writtenAttribute, String.toList_ofList, escapeValue,
      unescapeFrom_flatMap_escapeChar]
    exact congrArg Except.ok String.ofList_toList
  rw [RawAttribute.resolve, hvalue]
  rfl

/-- Resolving gives all attributes of a tag back. -/
theorem mapM_resolve_map_writtenAttribute (attributes : List Attribute) :
    (attributes.map writtenAttribute).mapM RawAttribute.resolve = .ok attributes :=
  mapM_map_eq_ok fun a _ => resolve_writtenAttribute a

end SoapTypes.Xml
