import SoapTypes.Text.Lines

/-!
# Texts made of lines

A text determines its lines as long as none of them holds a line feed of its own. This is said line
by line, with any text behind, so that the parts of a text can be told apart one after the other.
-/

namespace SoapTypes.Text

/-- A mark that does not occur before its place tells what stands before and behind it. -/
theorem append_cons_cancel {α : Type} {mark : α} {l m x y : List α} (hl : mark ∉ l) (hm : mark ∉ m)
    (h : l ++ mark :: x = m ++ mark :: y) : l = m ∧ x = y := by
  induction l generalizing m with
  | nil =>
    cases m with
    | nil => exact ⟨rfl, (List.cons.inj h).2⟩
    | cons b m => exact absurd ((List.cons.inj h).1 ▸ List.mem_cons_self) hm
  | cons a l ih =>
    cases m with
    | nil => exact absurd ((List.cons.inj h).1 ▸ List.mem_cons_self) hl
    | cons b m =>
      obtain ⟨rfl, htail⟩ := List.cons.inj h
      obtain ⟨rfl, hrest⟩ := ih (mt (List.mem_cons_of_mem a) hl) (mt (List.mem_cons_of_mem a) hm)
        htail
      exact ⟨rfl, hrest⟩

/-- A text without a line feed. -/
def OneLine (line : String) : Prop := '\n' ∉ line.toList

instance (line : String) : Decidable (OneLine line) :=
  inferInstanceAs (Decidable ('\n' ∉ line.toList))

theorem toList_unlines_cons (l : String) (ls : List String) :
    (unlines (l :: ls)).toList = l.toList ++ '\n' :: (unlines ls).toList := by
  simp [toList_unlines]

theorem unlines_cons_ne_unlines_nil (l : String) (ls : List String) :
    unlines (l :: ls) ≠ unlines [] := by
  intro h
  have hlist : l.toList ++ '\n' :: (unlines ls).toList = [] :=
    (toList_unlines_cons l ls).symm.trans (congrArg String.toList h)
  exact List.append_ne_nil_of_right_ne_nil _ (List.cons_ne_nil _ _) hlist

/-- Of two texts that begin with the same lines the rests are equal if the texts are. -/
theorem unlines_append_cancel {ls x y : List String}
    (h : unlines (ls ++ x) = unlines (ls ++ y)) : unlines x = unlines y := by
  have hlist := congrArg String.toList h
  rw [unlines_append, unlines_append, String.toList_append, String.toList_append] at hlist
  exact String.toList_injective (List.append_cancel_left hlist)

/-- Texts that begin with different words of one length are different. -/
theorem unlines_cons_ne {l m : String} {start start' : List Char} {x y : List String}
    (hl : start <+: l.toList) (hm : start' <+: m.toList) (hlength : start.length = start'.length)
    (hne : start ≠ start') : unlines (l :: x) ≠ unlines (m :: y) := by
  intro h
  have hlist := congrArg String.toList h
  rw [toList_unlines_cons, toList_unlines_cons] at hlist
  obtain ⟨rest, hl⟩ := hl
  obtain ⟨rest', hm⟩ := hm
  rw [← hl, ← hm, List.append_assoc, List.append_assoc] at hlist
  exact hne (List.append_inj_left hlist hlength)

/-- The first line of a text is determined, and what follows it. -/
theorem unlines_cons_cancel {l m : String} {x y : List String} (hl : OneLine l) (hm : OneLine m)
    (h : unlines (l :: x) = unlines (m :: y)) : l = m ∧ unlines x = unlines y := by
  have hlist := congrArg String.toList h
  rw [toList_unlines_cons, toList_unlines_cons] at hlist
  obtain ⟨hline, hrest⟩ := append_cons_cancel hl hm hlist
  exact ⟨String.toList_injective hline, String.toList_injective hrest⟩

/-- A text tells its lines if none of them holds a line feed. -/
theorem unlines_injective {ls ms : List String} (hls : ∀ l ∈ ls, OneLine l)
    (hms : ∀ m ∈ ms, OneLine m) (h : unlines ls = unlines ms) : ls = ms := by
  induction ls generalizing ms with
  | nil =>
    cases ms with
    | nil => rfl
    | cons m ms => exact absurd h.symm (unlines_cons_ne_unlines_nil m ms)
  | cons l ls ih =>
    cases ms with
    | nil => exact absurd h (unlines_cons_ne_unlines_nil l ls)
    | cons m ms =>
      rw [List.forall_mem_cons] at hls hms
      obtain ⟨rfl, hrest⟩ := unlines_cons_cancel hls.1 hms.1 h
      rw [ih hls.2 hms.2 hrest]

/-- The lines before the first occurrence of a closing line are determined, and what follows it. -/
theorem unlines_append_cons_cancel {close : String} {ls ms x y : List String}
    (hclose : OneLine close) (hls : ∀ l ∈ ls, OneLine l ∧ l ≠ close)
    (hms : ∀ m ∈ ms, OneLine m ∧ m ≠ close)
    (h : unlines (ls ++ close :: x) = unlines (ms ++ close :: y)) :
    ls = ms ∧ unlines x = unlines y := by
  induction ls generalizing ms with
  | nil =>
    cases ms with
    | nil => exact ⟨rfl, (unlines_cons_cancel hclose hclose h).2⟩
    | cons m ms =>
      obtain ⟨hm, hne⟩ := hms m List.mem_cons_self
      exact absurd (unlines_cons_cancel hclose hm h).1.symm hne
  | cons l ls ih =>
    obtain ⟨hl, hne⟩ := hls l List.mem_cons_self
    cases ms with
    | nil => exact absurd (unlines_cons_cancel hl hclose h).1 hne
    | cons m ms =>
      obtain ⟨rfl, htail⟩ := unlines_cons_cancel hl (hms m List.mem_cons_self).1 h
      obtain ⟨rfl, hrest⟩ := ih (fun l hl => hls l (List.mem_cons_of_mem _ hl))
        (fun m hm => hms m (List.mem_cons_of_mem _ hm)) htail
      exact ⟨rfl, hrest⟩

end SoapTypes.Text
