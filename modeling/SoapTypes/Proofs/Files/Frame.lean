import SoapTypes.Files.Store
import SoapTypes.Proofs.Traversal

/-!
# What writing a file changes

Making directories leaves everything that is there as it is, and replacing a file changes one place
only. So whatever becomes of a written file, all other files stay as they are; if the writing fails,
all files do. A written file is found again under its path.
-/

namespace SoapTypes.Files

/-! ## Entries -/

namespace Store

/-- The contents of the file in a place, if there is a file. -/
def contents? (s : Store) (l : Location) : Option ByteArray :=
  match s.entry? l with
  | some (.file contents) => some contents
  | _ => none

theorem contents?_congr {s s' : Store} {l : Location} (h : s'.entry? l = s.entry? l) :
    s'.contents? l = s.contents? l := by
  rw [contents?, contents?, h]

/-- What is put into a place other than the root is found there. -/
theorem entry?_insert_self (s : Store) {l : Location} (hl : l ≠ []) (e : Entry) :
    entry? (s.insert l e) l = some e := by
  rw [Store.entry?, if_neg hl]
  exact Std.TreeMap.getElem?_insert_self

/-- Other places keep what they hold. -/
theorem entry?_insert_of_ne (s : Store) {l l' : Location} (hne : l ≠ l') (e : Entry) :
    entry? (s.insert l e) l' = s.entry? l' := by
  have hcompare : compare l l' ≠ .eq := fun h => hne (Std.compare_eq_iff_eq.1 h)
  simp only [Store.entry?, Store.insert, Std.TreeMap.getElem?_insert, hcompare, if_false]

/-- A store goes over into another one by making directories: what is there stays, and what is new
is a directory. -/
def AddsDirectories (s s' : Store) : Prop :=
  ∀ l, s'.entry? l = s.entry? l ∨ s.entry? l = none ∧ s'.entry? l = some .directory

namespace AddsDirectories

theorem refl (s : Store) : AddsDirectories s s :=
  fun _ => Or.inl rfl

theorem trans {s s' s'' : Store} (h : AddsDirectories s s') (h' : AddsDirectories s' s'') :
    AddsDirectories s s'' := by
  intro l
  rcases h' l with hsame' | ⟨hnone', hdirectory'⟩
  · rw [hsame']
    exact h l
  · rcases h l with hsame | ⟨-, hdirectory⟩
    · exact Or.inr ⟨hsame ▸ hnone', hdirectory'⟩
    · rw [hnone'] at hdirectory
      cases hdirectory

/-- Where nothing is, a directory can be made. -/
theorem insert {s : Store} {l : Location} (hl : s.entry? l = none) :
    AddsDirectories s (s.insert l .directory) := by
  intro l'
  by_cases heq : l = l'
  · subst heq
    have hroot : l ≠ [] := by
      rintro rfl
      cases hl
    exact Or.inr ⟨hl, s.entry?_insert_self hroot .directory⟩
  · exact Or.inl (s.entry?_insert_of_ne heq .directory)

/-- Making directories changes no file. -/
theorem contents? {s s' : Store} (h : AddsDirectories s s') (l : Location) :
    s'.contents? l = s.contents? l := by
  rcases h l with hsame | ⟨hnone, hdirectory⟩
  · exact contents?_congr hsame
  · rw [Store.contents?, Store.contents?, hnone, hdirectory]

end AddsDirectories

/-- Making directories along a path adds directories, also if it fails. -/
theorem addsDirectories_makeDirectories (s : Store) (l : Location) (made : Bool)
    (path : List String) : AddsDirectories s (s.makeDirectories l made path).1 := by
  induction path generalizing s l made with
  | nil => exact .refl s
  | cons piece rest ih =>
    unfold makeDirectories
    cases move l piece with
    | error f => exact .refl s
    | ok l' =>
      cases hentry : s.entry? l' with
      | none =>
        simp only [hentry]
        exact (AddsDirectories.insert hentry).trans (ih _ _ _)
      | some e =>
        cases e with
        | directory =>
          simp only [hentry]
          exact ih _ _ _
        | file contents =>
          simp only [hentry]
          exact .refl s

/-- Preparing a directory adds directories, also if it fails. -/
theorem addsDirectories_prepare (s : Store) (directory : String) :
    AddsDirectories s (s.prepare directory).1 := by
  have hmade := s.addsDirectories_makeDirectories (s.origin directory) false
    (steps directory).reverse
  unfold prepare
  split
  · exact .refl s
  · split
    · next hresult =>
      rw [hresult] at hmade
      exact hmade
    · next hresult =>
      rw [hresult] at hmade
      split
      · exact hmade
      · exact hmade

end Store

/-! ## Paths -/

/-- A path that does not end in a slash ends in a piece that is not empty. -/
theorem exists_pieces_eq_append {path : String} (hpath : path ≠ "")
    (hslash : path.toList.getLast? ≠ some '/') :
    ∃ before name, pieces path = before ++ [name] ∧ name ≠ "" := by
  by_cases hmem : '/' ∈ path.toList
  · obtain ⟨tail, front, hsplit, hnone⟩ := List.eq_append_cons_of_mem (List.mem_reverse.2 hmem)
    have hpieces : path.toList = front.reverse ++ '/' :: tail.reverse := by
      rw [← List.reverse_reverse path.toList, hsplit]
      simp
    have hlast : tail.reverse.splitOn '/' = [tail.reverse] :=
      List.splitOn_eq_singleton (by simpa using hnone)
    refine ⟨(front.reverse.splitOn '/').map String.ofList, String.ofList tail.reverse, ?_, ?_⟩
    · rw [pieces, hpieces, List.splitOn_append_cons_self, hlast, List.map_append,
        List.map_singleton]
    · intro hempty
      apply hslash
      have htail : tail.reverse = [] := by simpa using congrArg String.toList hempty
      rw [hpieces, htail]
      simp
  · refine ⟨[], path, ?_, hpath⟩
    rw [pieces, List.splitOn_eq_singleton hmem]
    simp

/-- The empty path is refused. -/
theorem ne_empty_of_checkPath {path : String} (h : checkPath path = .ok ()) : path ≠ "" := by
  rintro rfl
  revert h
  decide

namespace Store

theorem directory_eq_ok_iff {s : Store} {l m : Location} :
    s.directory l = .ok m ↔ s.entry? l = some .directory ∧ m = l := by
  unfold directory
  split
  · next hentry => simp [hentry, eq_comm]
  · next hentry => simp [hentry]
  · next hentry => simp [hentry]

/-- A path is followed piece by piece, so its beginning can be followed first. -/
theorem walk_append (s : Store) (l : Location) (path rest : List String) :
    s.walk l (path ++ rest) = (s.walk l path).bind fun l => s.walk l rest := by
  induction path generalizing l with
  | nil => rfl
  | cons piece path ih =>
    rw [List.cons_append, walk, walk]
    cases s.directory l with
    | error f => rfl
    | ok l =>
      simp only [Except.bind]
      cases move l piece with
      | error f => rfl
      | ok l => exact ih l

/-- A step from a directory to what has a name in it. -/
theorem walk_singleton {s : Store} {l m place : Location} {name : String}
    (hdirectory : s.directory l = .ok m) (hplace : child m name = .ok place) (hempty : name ≠ "")
    (hdot : name ≠ ".") (hdots : name ≠ "..") : s.walk l [name] = .ok place := by
  simp [walk, hdirectory, move, isStep, hplace, hempty, hdot, hdots, Except.bind]

theorem ne_root_of_child {l place : Location} {name : String} (h : child l name = .ok place) :
    place ≠ [] := by
  obtain ⟨_, -, rfl⟩ := except_map_eq_ok_iff.1 h
  exact List.cons_ne_nil name l

/-- Replacing a file puts it into the place of its path, where no directory was. -/
theorem exists_of_replace_eq_ok {s s' : Store} {path : String} {contents : ByteArray}
    (h : s.replace path contents = .ok s') :
    ∃ place, s.locate path = .ok place ∧ place ≠ [] ∧ s.entry? place ≠ some .directory ∧
      s' = s.insert place (.file contents) := by
  unfold replace at h
  obtain ⟨⟨⟩, hcheck, hnamed⟩ := except_bind_eq_ok_iff.1 h
  split at hnamed
  · cases hnamed
  next name reversed hdrop =>
    obtain ⟨l, hl, hfree⟩ := except_bind_eq_ok_iff.1 hnamed
    obtain ⟨m, hwalk, hdirectory⟩ := except_bind_eq_ok_iff.1 hl
    split at hfree
    · cases hfree
    next hname =>
      simp only [Bool.or_eq_true, beq_iff_eq, not_or] at hname
      obtain ⟨place, hplace, hput⟩ := except_bind_eq_ok_iff.1 hfree
      split at hput
      · cases hput
      next hslash =>
        split at hput
        · cases hput
        next hentry =>
          obtain ⟨before, last, hpieces, hlast⟩ :=
            exists_pieces_eq_append (ne_empty_of_checkPath hcheck) (by simpa using hslash)
          obtain ⟨rfl, rfl⟩ : last = name ∧ before = reversed.reverse := by
            simpa [hpieces, hlast, List.reverse_eq_iff] using hdrop
          refine ⟨place, ?_, ne_root_of_child hplace, hentry, (Except.ok.inj hput).symm⟩
          rw [locate, hcheck, hpieces]
          change s.walk (s.origin path) (reversed.reverse ++ [last]) = .ok place
          rw [walk_append, hwalk]
          exact walk_singleton hdirectory hplace hlast hname.1 hname.2

/-- Where directories stay directories, a path leads to the same place. -/
theorem walk_of_directories {s s' : Store} {l place : Location} {path : List String}
    (hdirectories : ∀ l, s.entry? l = some .directory → s'.entry? l = some .directory)
    (h : s.walk l path = .ok place) : s'.walk l path = .ok place := by
  induction path generalizing l with
  | nil => exact h
  | cons piece rest ih =>
    obtain ⟨m, hdirectory, hfurther⟩ := except_bind_eq_ok_iff.1 h
    obtain ⟨l', hmove, hrest⟩ := except_bind_eq_ok_iff.1 hfurther
    obtain ⟨hentry, rfl⟩ := directory_eq_ok_iff.1 hdirectory
    exact except_bind_eq_ok_iff.2 ⟨m, directory_eq_ok_iff.2 ⟨hdirectories m hentry, rfl⟩,
      except_bind_eq_ok_iff.2 ⟨l', hmove, ih hrest⟩⟩

/-- What replacing a file changes: the place of its path, in which the file is found afterwards. -/
structure Replaces (s s' : Store) (path text : String) (place : Location) : Prop where
  locate : s'.locate path = .ok place
  contents : s'.contents? place = some text.toUTF8
  others : ∀ l, l ≠ place → s'.contents? l = s.contents? l

theorem exists_replaces_of_replace {s s' : Store} {path text : String}
    (h : s.replace path text.toUTF8 = .ok s') : ∃ place, Replaces s s' path text place := by
  obtain ⟨place, hlocate, hroot, hentry, rfl⟩ := exists_of_replace_eq_ok h
  refine ⟨place, ?_, ?_, fun l hl => ?_⟩
  · obtain ⟨⟨⟩, hcheck, hwalk⟩ := except_bind_eq_ok_iff.1 hlocate
    refine except_bind_eq_ok_iff.2 ⟨(), hcheck, walk_of_directories (fun l hl => ?_) hwalk⟩
    have hne : place ≠ l := by
      rintro rfl
      exact hentry hl
    rw [s.entry?_insert_of_ne hne, hl]
  · rw [contents?, s.entry?_insert_self hroot]
  · exact contents?_congr (s.entry?_insert_of_ne (Ne.symm hl) _)

/-- A file that holds the UTF-8 form of a text is read as this text. -/
theorem readText_of_contents? {s : Store} {path text : String} {place : Location}
    (hlocate : s.locate path = .ok place) (hcontents : s.contents? place = some text.toUTF8) :
    s.readText path = .ok text := by
  have htext : String.fromUTF8? text.toUTF8 = some text := dif_pos text.isValidUTF8
  rw [Store.readText, hlocate]
  unfold contents? at hcontents
  split at hcontents
  · next contents hentry =>
    obtain rfl := Option.some.inj hcontents
    simp only [Except.bind, hentry, htext]
  · cases hcontents

/-- The text of a file that was written is read again. -/
theorem Replaces.readText {s s' : Store} {path text : String} {place : Location}
    (h : Replaces s s' path text place) : s'.readText path = .ok text :=
  readText_of_contents? h.locate h.contents

/-- If a file cannot be written, nothing but directories has been added. -/
theorem addsDirectories_of_write {s s' : Store} {path text : String} {fault : String × Fault}
    (h : s.write path text = (s', some fault)) : AddsDirectories s s' := by
  unfold write at h
  extract_lets directory at h
  have hprepared := s.addsDirectories_prepare directory
  split at h
  · next prepared f hprepare =>
    rw [hprepare] at hprepared
    obtain ⟨rfl, -⟩ := Prod.mk.inj h
    exact hprepared
  · next prepared hprepare =>
    rw [hprepare] at hprepared
    split at h
    · cases (Prod.mk.inj h).2
    · obtain ⟨rfl, -⟩ := Prod.mk.inj h
      exact hprepared

/-- Writing a file replaces the contents of one place. -/
theorem exists_replaces_of_write {s s' : Store} {path text : String}
    (h : s.write path text = (s', none)) : ∃ place, Replaces s s' path text place := by
  unfold write at h
  extract_lets directory at h
  have hprepared := s.addsDirectories_prepare directory
  split at h
  · cases (Prod.mk.inj h).2
  next prepared hprepare =>
    rw [hprepare] at hprepared
    split at h
    · next replaced hreplace =>
      obtain ⟨rfl, -⟩ := Prod.mk.inj h
      obtain ⟨place, hplace⟩ := exists_replaces_of_replace hreplace
      exact ⟨place, hplace.locate, hplace.contents,
        fun l hl => (hplace.others l hl).trans (hprepared.contents? l)⟩
    · cases (Prod.mk.inj h).2

end Store

end SoapTypes.Files
