import SoapTypes.Text.Case

/-!
# Plain names

Plain names consist of letters, digits and three marks, so nothing that separates names from each
other occurs in them. Capital letters do not change this for blanks: the upper case of a character
above the space holds no character up to the space but the null character.
-/

namespace SoapTypes.Text

/-- Letters, among which all characters beyond ASCII count. -/
def isLetter (c : Char) : Bool :=
  c.isAlpha || decide (128 ≤ c.toNat)

/-- The characters of plain names. -/
def inName (c : Char) : Bool :=
  isLetter c || c.isDigit || c == '_' || c == '-' || c == '.'

/-- A name that is not empty and has plain characters only. -/
structure PlainName (name : String) : Prop where
  nonempty : name ≠ ""
  plain : ∀ c ∈ name.toList, inName c = true

instance (name : String) : Decidable (PlainName name) :=
  decidable_of_iff (name ≠ "" ∧ name.toList.all inName = true)
    ⟨fun h => ⟨h.1, List.all_eq_true.1 h.2⟩, fun h => ⟨h.nonempty, List.all_eq_true.2 h.plain⟩⟩

/-- No other character occurs in a plain name. -/
theorem PlainName.notMem {name : String} (h : PlainName name) {c : Char}
    (hc : inName c = false) : c ∉ name.toList := by
  intro hmem
  rw [h.plain c hmem] at hc
  cases hc

/-- A plain character stands above the space. -/
theorem lt_toNat_of_inName {c : Char} (h : inName c = true) : 32 < c.toNat := by
  have hsmall : ∀ n < 33, inName (Char.ofNat n) = false := by decide
  rcases Nat.lt_or_ge c.toNat 33 with hlt | hge
  · have hc := hsmall c.toNat hlt
    rw [Char.ofNat_toNat, h] at hc
    cases hc
  · exact hge

/-- A mapping whose tables lead above the space leads there from above the space. -/
theorem lt_of_mem_mapCase {runs : List CaseRun} {expansions : List (Nat × List Nat)}
    (hruns : ∀ r ∈ runs, 32 < r.first + r.shift)
    (hexpansions : ∀ e ∈ expansions, ∀ m ∈ e.2, 32 < m) {n m : Nat} (hn : 32 < n)
    (hm : m ∈ mapCase runs expansions n) : 32 < m := by
  unfold mapCase at hm
  cases hlookup : expansions.lookup n with
  | some ms =>
    rw [hlookup] at hm
    obtain ⟨before, after, hsplit, -⟩ := List.lookup_eq_some_iff.1 hlookup
    exact hexpansions (n, ms) (by simp [hsplit]) m hm
  | none =>
    rw [hlookup, List.mem_singleton] at hm
    cases hrun : runs.findSome? (·.map? n) with
    | none => rw [hm, hrun]; exact hn
    | some m' =>
      obtain ⟨r, hr, hmap⟩ := List.exists_of_findSome?_eq_some hrun
      have habove := hruns r hr
      simp only [CaseRun.map?, Option.ite_none_right_eq_some, Option.some.injEq] at hmap
      rw [hm, hrun, Option.getD_some]
      omega

/-- The upper case of a character above the space. -/
theorem lt_of_mem_upper {c d : Char} (hc : 32 < c.toNat) (hd : d ∈ upper c) :
    d.toNat = 0 ∨ 32 < d.toNat := by
  unfold upper at hd
  split at hd
  · rename_i hascii
    have hsmall : ∀ n < 128, 32 < n → 32 < (Char.ofNat n).toUpper.toNat := by
      decide +kernel
    have hupper := hsmall c.toNat hascii hc
    rw [Char.ofNat_toNat] at hupper
    rw [List.mem_singleton.1 hd]
    exact Or.inr hupper
  · obtain ⟨n, hn, rfl⟩ := List.mem_map.1 hd
    have hruns : ∀ r ∈ upperRuns, 32 < r.first + r.shift := by decide +kernel
    have hexpansions : ∀ e ∈ upperExpansions, ∀ m ∈ e.2, 32 < m := by decide +kernel
    have habove := lt_of_mem_mapCase hruns hexpansions hc hn
    by_cases hvalid : n.isValidChar
    · rw [Char.ofNat, dif_pos hvalid]
      exact Or.inr habove
    · rw [Char.ofNat, dif_neg hvalid]
      exact Or.inl rfl

/-- No blank of ASCII occurs in a plain name with a capital letter. -/
theorem PlainName.notMem_capitalize {name : String} (h : PlainName name) {c : Char}
    (hpos : 0 < c.toNat) (hle : c.toNat ≤ 32) : c ∉ (capitalize name).toList := by
  intro hc
  rw [toList_capitalize] at hc
  cases hname : name.toList with
  | nil => simp [hname, mapFirst] at hc
  | cons d ds =>
    have hplain {x : Char} (hx : x ∈ d :: ds) : 32 < x.toNat :=
      lt_toNat_of_inName (h.plain x (hname ▸ hx))
    rw [hname, mapFirst, List.mem_append] at hc
    rcases hc with hc | hc
    · have := lt_of_mem_upper (hplain List.mem_cons_self) hc
      omega
    · have := hplain (List.mem_cons_of_mem d hc)
      omega

end SoapTypes.Text
