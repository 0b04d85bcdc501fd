import SoapTypes.Generation.Run
import SoapTypes.Proofs.Files.Frame

/-!
# What a run changes

A run changes no file before its document is complete, and then the output file only. So a run that
fails changes no file, whatever it fails at, and a run that succeeds has read all that it needs
before it writes: the output may take the place of the description.
-/

namespace SoapTypes.Generation

open Files

/-- A run either fails before it writes and leaves the store as it is, or it has a text to write
and ends as the writing does. -/
theorem generate_cases (store : Store) (env : Environment) (o : Options) :
    (∃ e, (render store.readText env o).result = .error e ∧
      (generate store env o).1 = store ∧ (generate store env o).2.result = .error e) ∨
    ∃ text, (render store.readText env o).result = .ok text ∧
      ((∃ s path fault, store.write o.output text = (s, some (path, fault)) ∧
          (generate store env o).1 = s ∧
          (generate store env o).2.result = .error (.file path fault)) ∨
        ∃ s, store.write o.output text = (s, none) ∧
          (generate store env o).1 = s ∧ (generate store env o).2.result = .ok o.output) := by
  unfold generate
  extract_lets rendered
  split
  · next e hrender => exact Or.inl ⟨e, hrender, rfl, rfl⟩
  · next text hrender =>
    refine Or.inr ⟨text, hrender, ?_⟩
    split
    · next s path fault hwrite => exact Or.inl ⟨s, path, fault, hwrite, rfl, rfl⟩
    · next s hwrite => exact Or.inr ⟨s, hwrite, rfl, rfl⟩

/-- **What a run changes.** A run fails if the text cannot be rendered or not be written; then each
place holds the file that it held, or none as before. If it succeeds, it gives the output path, at
which the text is read that was rendered from the store as it was; the place of that path is the
only one in which the files differ. -/
theorem generate_effects (store : Store) (env : Environment) (o : Options) :
    (∀ e, (generate store env o).2.result = .error e →
      ((render store.readText env o).result = .error e ∨
        ∃ text path fault, (render store.readText env o).result = .ok text ∧
          (store.write o.output text).2 = some (path, fault) ∧ e = .file path fault) ∧
      ∀ l, (generate store env o).1.contents? l = store.contents? l) ∧
    (∀ path, (generate store env o).2.result = .ok path →
      path = o.output ∧
      ∃ text place, (render store.readText env o).result = .ok text ∧
        (generate store env o).1.readText path = .ok text ∧
        (generate store env o).1.locate path = .ok place ∧
        (generate store env o).1.contents? place = some text.toUTF8 ∧
        ∀ l, l ≠ place → (generate store env o).1.contents? l = store.contents? l) := by
  rcases generate_cases store env o with ⟨e, hrender, hstore, herror⟩ |
    ⟨text, hrender, ⟨s, path, fault, hwrite, hstore, herror⟩ | ⟨s, hwrite, hstore, hok⟩⟩
  · rw [hstore, herror]
    refine ⟨fun e' he => ⟨Or.inl ?_, fun _ => rfl⟩, nofun⟩
    rw [hrender, Except.error.inj he]
  · rw [hstore, herror]
    refine ⟨fun e he => ⟨Or.inr ⟨text, path, fault, hrender, ?_, ?_⟩, ?_⟩, nofun⟩
    · rw [hwrite]
    · exact (Except.error.inj he).symm
    · exact (Store.addsDirectories_of_write hwrite).contents?
  · rw [hstore, hok]
    refine ⟨nofun, fun path hpath => ?_⟩
    obtain rfl := Except.ok.inj hpath
    obtain ⟨place, hplace⟩ := Store.exists_replaces_of_write hwrite
    exact ⟨rfl, text, place, hrender, hplace.readText, hplace.locate, hplace.contents,
      hplace.others⟩

/-- A description without types. -/
def bareDescription : String := "<definitions><types><schema/></types></definitions>"

/-- A store that holds nothing but this description. -/
def bareStore : Store :=
  ⟨["work"], .ofList [(["work"], Entry.directory),
    (["service", "work"], Entry.file bareDescription.toUTF8)]⟩

/-- An environment without resources. -/
def bareEnvironment : Environment := ⟨"resources", ⟨0, 0⟩⟩

/-- Options that read this description. -/
def bareOptions (output : String) : Options :=
  { output := output, description := some "service", timestamp := false }

/-- Both halves of `generate_effects`: a run that writes over its description, and one that fails
when it has made the directories above a file that can have no place. -/
theorem bareStore_effects :
    ((generate bareStore bareEnvironment (bareOptions "service")).2.result = .ok "service" ∧
      ∃ text, text ≠ bareDescription ∧
        (generate bareStore bareEnvironment (bareOptions "service")).1.readText "service" =
          .ok text) ∧
    Store.entry? (generate bareStore bareEnvironment (bareOptions "a/b/..")).1
        ["b", "a", "work"] = some .directory ∧
      ∀ l, (generate bareStore bareEnvironment (bareOptions "a/b/..")).1.contents? l =
        bareStore.contents? l := by
  obtain ⟨-, hwritten⟩ := generate_effects bareStore bareEnvironment (bareOptions "service")
  obtain ⟨hfailed, -⟩ := generate_effects bareStore bareEnvironment (bareOptions "a/b/..")
  have hok : (generate bareStore bareEnvironment (bareOptions "service")).2.result =
      .ok "service" := by decide +kernel
  have herror : (generate bareStore bareEnvironment (bareOptions "a/b/..")).2.result =
      .error (.file "a/b/.." .busy) := by decide +kernel
  have hother : (render bareStore.readText bareEnvironment (bareOptions "service")).result ≠
      .ok bareDescription := by decide +kernel
  obtain ⟨-, text, _, hrender, hread, -⟩ := hwritten "service" hok
  refine ⟨⟨hok, text, ?_, hread⟩, by decide +kernel, (hfailed _ herror).2⟩
  rintro rfl
  exact hother hrender

end SoapTypes.Generation
