import SoapTypes.Proofs.Span
import SoapTypes.Xml.Scan

/-!
# Searches that succeed

What the searches in markup find in a text that is put together from what they look for. A search
for a mark stops where the mark has been put, since nothing before it looks like one.
-/

namespace SoapTypes.Xml

/-- A text of white space only. -/
def Spaces (s : List Char) : Prop := ∀ c ∈ s, isSpace c = true

instance (s : List Char) : Decidable (Spaces s) :=
  decidable_of_iff (s.all isSpace = true) List.all_eq_true

/-- A mark is found behind a text in which its first character does not occur. -/
theorem behind?_append {first : Char} {mark s rest : List Char} (hs : first ∉ s) :
    behind? (first :: mark) (s ++ (first :: mark ++ rest)) = some rest := by
  induction s with
  | nil =>
    have hprefix : (first :: mark).isPrefixOf (first :: (mark ++ rest)) = true :=
      List.isPrefixOf_iff_prefix.2 ⟨rest, rfl⟩
    rw [List.nil_append, List.cons_append, behind?, if_pos hprefix, ← List.cons_append,
      List.drop_left]
  | cons c s ih =>
    have hne : first ≠ c := fun h => hs (h ▸ List.mem_cons_self)
    have hprefix : ¬(first :: mark).isPrefixOf (c :: (s ++ (first :: mark ++ rest))) = true := by
      simp [List.isPrefixOf, hne]
    rw [List.cons_append, behind?, if_neg hprefix, ih fun h => hs (List.mem_cons_of_mem c h)]

/-- Texts in which every quote is closed and no `>` stands outside of quotes. -/
inductive Balanced : List Char → Prop
  | nil : Balanced []
  | plain {c : Char} {s : List Char} (hend : c ≠ '>') (hquote : isQuote c = false)
      (h : Balanced s) : Balanced (c :: s)
  | quoted {q : Char} {value s : List Char} (hq : isQuote q = true) (hvalue : q ∉ value)
      (h : Balanced s) : Balanced (q :: (value ++ q :: s))

theorem Balanced.append {s t : List Char} (hs : Balanced s) (ht : Balanced t) :
    Balanced (s ++ t) := by
  induction hs with
  | nil => exact ht
  | plain hend hquote _ ih => exact .plain hend hquote ih
  | @quoted q value s hq hvalue _ ih =>
    rw [List.cons_append, List.append_assoc, List.cons_append]
    exact .quoted hq hvalue ih

/-- A text without quotes is balanced. -/
theorem balanced_of_forall {s : List Char} (hs : ∀ c ∈ s, c ≠ '>' ∧ isQuote c = false) :
    Balanced s := by
  induction s with
  | nil => exact .nil
  | cons c s ih =>
    obtain ⟨hend, hquote⟩ := hs c List.mem_cons_self
    exact .plain hend hquote (ih fun d hd => hs d (List.mem_cons_of_mem c hd))

/-- White space is balanced. -/
theorem Spaces.balanced {blank : List Char} (hblank : Spaces blank) : Balanced blank := by
  refine balanced_of_forall fun c hc => ?_
  have hspace := hblank c hc
  simp only [isSpace, Bool.or_eq_true, beq_iff_eq] at hspace
  rcases hspace with ((rfl | rfl) | rfl) | rfl <;> decide

/-- What stands inside of quotes is passed over up to the closing quote. -/
theorem splitTag_quoted {q : Char} {value s : List Char} (hvalue : q ∉ value) :
    splitTag (some q) (value ++ q :: s) =
      (splitTag none s).map fun (t, rest) => (value ++ q :: t, rest) := by
  induction value with
  | nil => simp [splitTag]
  | cons c value ih =>
    have hne : c ≠ q := fun h => hvalue (h ▸ List.mem_cons_self)
    rw [List.cons_append, splitTag]
    simp only [if_neg hne]
    rw [ih fun h => hvalue (List.mem_cons_of_mem c h)]
    cases splitTag none s <;> rfl

/-- A tag goes up to the `>` behind its balanced content. -/
theorem splitTag_of_balanced {s : List Char} (h : Balanced s) (rest : List Char) :
    splitTag none (s ++ '>' :: rest) = .ok (s, rest) := by
  induction h with
  | nil => rfl
  | @plain c s hend hquote _ ih =>
    rw [List.cons_append, splitTag]
    simp only [if_neg hend, hquote, Bool.false_eq_true, if_false, ih]
    rfl
  | @quoted q value s hq hvalue _ ih =>
    have hend : q ≠ '>' := by
      rintro rfl
      cases hq
    rw [List.cons_append, List.append_assoc, List.cons_append, splitTag]
    simp only [if_neg hend, hq, if_true, splitTag_quoted hvalue, ih]
    rfl

/-- What goes on inside of the given quotes, if any, and is balanced behind the quote that closes
them. -/
def BalancedFrom : Option Char → List Char → Prop
  | none, s => Balanced s
  | some q, s => ∃ value t, s = value ++ q :: t ∧ q ∉ value ∧ Balanced t

/-- What stands before the `>` that ends a tag is balanced. -/
theorem balancedFrom_of_splitTag {quote : Option Char} {s content rest : List Char}
    (h : splitTag quote s = .ok (content, rest)) :
    s = content ++ '>' :: rest ∧ BalancedFrom quote content := by
  induction s generalizing quote content with
  | nil => cases h
  | cons c s ih =>
    have hmap {quote' : Option Char}
        (h : (splitTag quote' s).map (fun p => (c :: p.1, p.2)) = .ok (content, rest)) :
        ∃ more, content = c :: more ∧ s = more ++ '>' :: rest ∧ BalancedFrom quote' more := by
      cases hs : splitTag quote' s with
      | error _ =>
        rw [hs] at h
        cases h
      | ok p =>
        rw [hs] at h
        obtain ⟨rfl, rfl⟩ := Prod.mk.inj (Except.ok.inj h)
        exact ⟨p.1, rfl, ih hs⟩
    cases quote with
    | some q =>
      obtain ⟨more, rfl, rfl, hmore⟩ := hmap h
      refine ⟨rfl, ?_⟩
      by_cases hc : c = q
      · rw [if_pos hc] at hmore
        exact ⟨[], more, by simp [hc], List.not_mem_nil, hmore⟩
      · rw [if_neg hc] at hmore
        obtain ⟨value, t, rfl, hvalue, ht⟩ := hmore
        exact ⟨c :: value, t, rfl, by simp [Ne.symm hc, hvalue], ht⟩
    | none =>
      rw [splitTag] at h
      by_cases hend : c = '>'
      · simp only [if_pos hend] at h
        obtain ⟨rfl, rfl⟩ := Prod.mk.inj (Except.ok.inj h)
        exact ⟨by rw [hend]; rfl, .nil⟩
      · simp only [if_neg hend] at h
        obtain ⟨more, rfl, rfl, hmore⟩ := hmap h
        refine ⟨rfl, ?_⟩
        by_cases hquote : isQuote c = true
        · rw [if_pos hquote] at hmore
          obtain ⟨value, t, rfl, hvalue, ht⟩ := hmore
          exact .quoted hquote hvalue ht
        · rw [if_neg hquote] at hmore
          exact .plain hend (Bool.eq_false_iff.2 hquote) hmore

end SoapTypes.Xml
