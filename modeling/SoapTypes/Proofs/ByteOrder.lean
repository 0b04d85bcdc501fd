import Mathlib.Data.List.Nodup
import Mathlib.Order.Basic

/-!
# The order of texts by bytes

Texts are compared character by character. In UTF-8 this is the order of their bytes: the bytes of
a lower character are below those of a higher one, whatever follows them.
-/

namespace SoapTypes.Text

/-- The bytes of a text in UTF-8. -/
def bytes (s : String) : List UInt8 :=
  s.toUTF8.data.toList

theorem bytes_eq_flatMap (s : String) : bytes s = s.toList.flatMap String.utf8EncodeChar := by
  obtain ⟨cs, rfl⟩ := s.exists_eq_ofList
  simp [bytes, List.utf8Encode]

private theorem ofNat_lt_ofNat {a b : ℕ} (ha : a < 256) (hb : b < 256) :
    UInt8.ofNat a < UInt8.ofNat b ↔ a < b := by
  rw [UInt8.lt_iff_toNat_lt, UInt8.toNat_ofNat_of_lt' ha, UInt8.toNat_ofNat_of_lt' hb]

private theorem ofNat_eq_ofNat {a b : ℕ} (ha : a < 256) (hb : b < 256) :
    UInt8.ofNat a = UInt8.ofNat b ↔ a = b := by
  rw [← UInt8.toNat_inj, UInt8.toNat_ofNat_of_lt' ha, UInt8.toNat_ofNat_of_lt' hb]

/-- Of two code points in four bytes the first byte that differs decides, as digits do. -/
private theorem digits_lt {m n : ℕ} (h : m < n) (hmax : n < 1114112) (p : Prop) :
    m / 262144 % 8 + 240 < n / 262144 % 8 + 240 ∨
      m / 262144 % 8 + 240 = n / 262144 % 8 + 240 ∧
        (m / 4096 % 64 + 128 < n / 4096 % 64 + 128 ∨
          m / 4096 % 64 + 128 = n / 4096 % 64 + 128 ∧
            (m / 64 % 64 + 128 < n / 64 % 64 + 128 ∨
              m / 64 % 64 + 128 = n / 64 % 64 + 128 ∧
                (m % 64 + 128 < n % 64 + 128 ∨ m % 64 + 128 = n % 64 + 128 ∧ p))) := by
  have hm : m / 64 / 64 = m / 4096 ∧ m / 4096 / 64 = m / 262144 := by
    simp only [Nat.div_div_eq_div_mul, Nat.reduceMul, and_self]
  have hn : n / 64 / 64 = n / 4096 ∧ n / 4096 / 64 = n / 262144 := by
    simp only [Nat.div_div_eq_div_mul, Nat.reduceMul, and_self]
  by_cases h₁ : m / 262144 % 8 < n / 262144 % 8
  · exact Or.inl (by omega)
  · have he₁ : m / 262144 = n / 262144 := by omega
    refine Or.inr ⟨by omega, ?_⟩
    by_cases h₂ : m / 4096 % 64 < n / 4096 % 64
    · exact Or.inl (by omega)
    · have he₂ : m / 4096 = n / 4096 := by omega
      refine Or.inr ⟨by omega, ?_⟩
      by_cases h₃ : m / 64 % 64 < n / 64 % 64
      · exact Or.inl (by omega)
      · have he₃ : m / 64 = n / 64 := by omega
        exact Or.inr ⟨by omega, Or.inl (by omega)⟩

/-- The bytes of a lower character are below those of a higher one, whatever follows. -/
theorem utf8EncodeChar_append_lt {c d : Char} (h : c < d) (x y : List UInt8) :
    String.utf8EncodeChar c ++ x < String.utf8EncodeChar d ++ y := by
  have hlt : c.val.toNat < d.val.toNat := h
  have hd : d.val.toNat < 1114112 := by
    rcases d.valid with hvalid | ⟨-, hvalid⟩
    · omega
    · exact hvalid
  unfold String.utf8EncodeChar
  generalize c.val.toNat = m at hlt
  generalize d.val.toNat = n at hlt hd
  dsimp only
  -- one goal for each pair of lengths; the first byte tells different lengths apart
  split_ifs <;>
    simp (disch := omega) only [List.cons_append, List.nil_append, List.cons_lt_cons_iff,
      ofNat_lt_ofNat, ofNat_eq_ofNat]
  all_goals first
    | omega
    | exact digits_lt hlt hd _

/-- The order of lists of characters carries over to their bytes. -/
theorem flatMap_utf8EncodeChar_lt {cs ds : List Char} (h : cs < ds) :
    cs.flatMap String.utf8EncodeChar < ds.flatMap String.utf8EncodeChar := by
  induction h with
  | @nil d ds =>
    obtain ⟨b, bs, hbs⟩ := List.exists_cons_of_ne_nil (String.utf8EncodeChar_ne_nil (c := d))
    rw [List.flatMap_nil, List.flatMap_cons, hbs]
    exact List.nil_lt_cons _ _
  | @rel c cs d ds hcd =>
    rw [List.flatMap_cons, List.flatMap_cons]
    exact utf8EncodeChar_append_lt hcd _ _
  | @cons c cs ds _ ih =>
    rw [List.flatMap_cons, List.flatMap_cons]
    exact List.append_left_lt ih

/-- A text is at most another one exactly if its bytes are. -/
theorem le_iff_bytes_le {s t : String} : s ≤ t ↔ bytes s ≤ bytes t := by
  rw [bytes_eq_flatMap, bytes_eq_flatMap]
  constructor
  · intro hle hlt
    by_cases heq : s = t
    · rw [heq] at hlt
      exact List.lt_irrefl _ hlt
    · have hst : s < t := by
        by_contra hts
        exact heq (String.le_antisymm hle (String.not_lt.1 hts))
      exact List.lt_asymm hlt (flatMap_utf8EncodeChar_lt hst)
  · intro hle hlt
    exact hle (flatMap_utf8EncodeChar_lt hlt)

/-- Members of a list stand in non-decreasing byte order of their names. -/
def ByteSorted {α : Type} (name : α → String) (xs : List α) : Prop :=
  xs.Pairwise fun x y => bytes (name x) ≤ bytes (name y)

section Sorting

variable {α : Type} (name : α → String)

private theorem le_trans_of_decide (x y z : α) (hxy : decide (name x ≤ name y) = true)
    (hyz : decide (name y ≤ name z) = true) : decide (name x ≤ name z) = true :=
  decide_eq_true (String.le_trans (of_decide_eq_true hxy) (of_decide_eq_true hyz))

private theorem le_total_of_decide (x y : α) :
    (decide (name x ≤ name y) || decide (name y ≤ name x)) = true := by
  simpa using String.le_total (name x) (name y)

/-- Sorting by name gives the byte order of the names. -/
theorem byteSorted_mergeSort (xs : List α) :
    ByteSorted name (xs.mergeSort fun x y => name x ≤ name y) := by
  have hsorted := List.pairwise_mergeSort (le_trans_of_decide name) (le_total_of_decide name) xs
  exact hsorted.imp fun hle => le_iff_bytes_le.1 (of_decide_eq_true hle)

/-- Sorting by name keeps the order of members that have the same name. -/
theorem filter_name_mergeSort (xs : List α) (n : String) :
    (xs.mergeSort fun x y => name x ≤ name y).filter (name · == n) = xs.filter (name · == n) := by
  have hsame : (xs.filter (name · == n)).Pairwise fun x y => decide (name x ≤ name y) = true := by
    refine List.pairwise_of_forall_mem_list fun x hx y hy => decide_eq_true ?_
    have hx' : name x = n := eq_of_beq (List.mem_filter.1 hx).2
    have hy' : name y = n := eq_of_beq (List.mem_filter.1 hy).2
    exact hx' ▸ hy' ▸ String.le_refl n
  have hkept := List.sublist_mergeSort (le_trans_of_decide name) (le_total_of_decide name) hsame
    List.filter_sublist
  -- the members of the name stand among the sorted ones in their order, and there are no others
  have hfiltered := hkept.filter (name · == n)
  simp only [List.filter_filter, Bool.and_self] at hfiltered
  exact (hfiltered.eq_of_length
    ((List.mergeSort_perm xs _).filter (name · == n)).length_eq.symm).symm

/-- Sorting by name does not change which member of a name comes first. -/
theorem find?_name_mergeSort (xs : List α) (n : String) :
    (xs.mergeSort fun x y => name x ≤ name y).find? (name · == n) = xs.find? (name · == n) := by
  rw [← List.head?_filter, ← List.head?_filter, filter_name_mergeSort]

end Sorting

/-- A list in the byte order of its names is sorted already. -/
theorem ByteSorted.mergeSort_eq {α : Type} {name : α → String} {xs : List α}
    (h : ByteSorted name xs) : (xs.mergeSort fun x y => name x ≤ name y) = xs :=
  List.mergeSort_of_pairwise (h.imp fun hle => decide_eq_true (le_iff_bytes_le.2 hle))

/-- Sorting by distinct names comes to the same list from any order. -/
theorem mergeSort_eq_of_perm {α : Type} {name : α → String} {xs ys : List α} (hperm : xs.Perm ys)
    (hdistinct : (xs.map name).Nodup) :
    (xs.mergeSort fun x y => name x ≤ name y) = ys.mergeSort fun x y => name x ≤ name y := by
  refine List.Perm.eq_of_pairwise ?_ (byteSorted_mergeSort name xs) (byteSorted_mergeSort name ys)
    ((List.mergeSort_perm xs _).trans (hperm.trans (List.mergeSort_perm ys _).symm))
  intro x y hx hy hxy hyx
  have hname : name x = name y :=
    String.le_antisymm (le_iff_bytes_le.2 hxy) (le_iff_bytes_le.2 hyx)
  exact List.inj_on_of_nodup_map hdistinct (List.mem_mergeSort.1 hx)
    (hperm.mem_iff.2 (List.mem_mergeSort.1 hy)) hname

end SoapTypes.Text
