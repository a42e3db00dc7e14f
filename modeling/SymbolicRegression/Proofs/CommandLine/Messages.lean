import SymbolicRegression.CommandLine.Folder

/-!
# What has been said makes no difference

Nothing that is loaded or saved depends on what stands on the stream of messages already. In
surroundings that differ in nothing but their messages the same is done, and surroundings are left
behind that differ in nothing but their messages.
-/
namespace SymbolicRegression.CommandLine

open Search

theorem bind_run {α β : Type} (x : InFolder α) (f : α → InFolder β) (w : Surroundings) :
    (x >>= f) w = f (x w).1 (x w).2 := rfl

theorem readText_run (path : String) (w : Surroundings) :
    (Workplace.readText path : InFolder (Except FileError String)) w =
      (w.folder.readText path, w) := rfl

namespace Surroundings

/-- Whether surroundings differ in nothing but the messages. -/
def Alike (w w' : Surroundings) : Prop := w' = { w with err := w'.err }

theorem Alike.symm {w w' : Surroundings} (h : w.Alike w') : w'.Alike w := by
  rw [Alike, h]

theorem Alike.trans {w w' w'' : Surroundings} (h : w.Alike w') (h' : w'.Alike w'') :
    w.Alike w'' := by
  rw [Alike, h', h]

theorem Alike.folder {w w' : Surroundings} (h : w.Alike w') : w'.folder = w.folder := by
  rw [h]

theorem alike_err (w : Surroundings) (said : String) : w.Alike { w with err := said } := rfl

end Surroundings

open Surroundings

variable {α β : Type}

/-- Whether a computation does the same in surroundings that differ in nothing but the messages. -/
def IsBlind (x : InFolder α) : Prop :=
  ∀ (w : Surroundings) (said : String),
    (x { w with err := said }).1 = (x w).1 ∧ (x w).2.Alike (x { w with err := said }).2

theorem IsBlind.of_alike {x : InFolder α} (h : IsBlind x) {w w' : Surroundings}
    (same : w.Alike w') : (x w').1 = (x w).1 ∧ (x w).2.Alike (x w').2 := by
  rw [same]
  exact h w w'.err

section Rules

theorem isBlind_pure (a : α) : IsBlind (pure a : InFolder α) := fun _ _ => ⟨rfl, rfl⟩

theorem IsBlind.bind {x : InFolder α} {f : α → InFolder β} (hx : IsBlind x)
    (hf : ∀ a, IsBlind (f a)) : IsBlind (x >>= f) := by
  intro w said
  obtain ⟨result, after⟩ := hx w said
  rw [bind_run, bind_run, result]
  exact (hf _).of_alike after

theorem isBlind_err (s : String) : IsBlind (Workplace.err s : InFolder Unit) :=
  fun _ _ => ⟨rfl, rfl⟩

theorem isBlind_out (s : String) : IsBlind (Workplace.out s : InFolder Unit) :=
  fun _ _ => ⟨rfl, rfl⟩

theorem isBlind_writeText (path text : String) :
    IsBlind (Workplace.writeText path text : InFolder (Except WriteError Unit)) := by
  intro w said
  simp only [Workplace.writeText]
  cases w.folder.writeText path text <;> exact ⟨rfl, rfl⟩

end Rules

/-- Whether a computation leaves everything as it is but for the messages, and depends on nothing
but the folder. -/
structure IsLoading (x : InFolder α) : Prop where
  keeps : ∀ w : Surroundings, w.Alike (x w).2
  reads : ∀ w w' : Surroundings, w.folder = w'.folder → (x w).1 = (x w').1

theorem IsLoading.blind {x : InFolder α} (h : IsLoading x) : IsBlind x := fun w said =>
  ⟨h.reads _ _ rfl, (h.keeps w).symm.trans ((w.alike_err said).trans (h.keeps _))⟩

theorem isLoading_pure (a : α) : IsLoading (pure a : InFolder α) :=
  ⟨fun _ => rfl, fun _ _ _ => rfl⟩

theorem IsLoading.bind {x : InFolder α} {f : α → InFolder β} (hx : IsLoading x)
    (hf : ∀ a, IsLoading (f a)) : IsLoading (x >>= f) := by
  refine ⟨fun w => ?_, fun w w' same => ?_⟩
  · rw [bind_run]
    exact (hx.keeps w).trans ((hf _).keeps _)
  · rw [bind_run, bind_run, hx.reads w w' same]
    exact (hf _).reads _ _ ((hx.keeps w).folder.trans (same.trans (hx.keeps w').folder.symm))

theorem isLoading_err (s : String) : IsLoading (Workplace.err s : InFolder Unit) :=
  ⟨fun _ => rfl, fun _ _ _ => rfl⟩

theorem isLoading_readText (path : String) :
    IsLoading (Workplace.readText path : InFolder (Except FileError String)) :=
  ⟨fun _ => rfl, fun _ _ same => congrArg (Folder.readText · path) same⟩

theorem isLoading_loadDocument (kind : String) (read : String → Except Json.Fault α)
    (path : String) : IsLoading (loadDocument kind read path : InFolder (Except Failure α)) := by
  refine (isLoading_readText path).bind fun text => ?_
  split
  · exact isLoading_pure _
  · split <;> exact isLoading_pure _

theorem isLoading_loadDataset (path : Option String) :
    IsLoading (loadDataset path : InFolder (Except Failure Dataset)) := by
  have announced (d : Dataset) :
      IsLoading (do Workplace.err (datasetLine d); pure (.ok d) :
        InFolder (Except Failure Dataset)) :=
    (isLoading_err _).bind fun _ => isLoading_pure _
  cases path with
  | none => exact announced Dataset.sample
  | some path =>
    refine (isLoading_loadDocument "dataset" Dataset.read path).bind fun loaded => ?_
    cases loaded with
    | error f => exact isLoading_pure _
    | ok d => exact announced d

theorem isLoading_loadConfig (path : Option String) :
    IsLoading (loadConfig path : InFolder (Except Failure Config)) := by
  cases path with
  | none => exact isLoading_pure _
  | some path => exact isLoading_loadDocument _ _ path

theorem isLoading_loadFirstFormula (d : Dataset) (path : String) :
    IsLoading (loadFirstFormula d path : InFolder (Option Formula)) := by
  refine (isLoading_loadDocument "start formula" FormulaDocument.read path).bind fun loaded => ?_
  have warned (s : String) (first : Option Formula) :
      IsLoading (do Workplace.err s; pure first : InFolder (Option Formula)) :=
    (isLoading_err s).bind fun _ => isLoading_pure first
  split
  · exact warned _ none
  · dsimp only
    split
    · exact warned _ none
    · exact warned _ _

theorem isBlind_saveText (path text : String) :
    IsBlind (saveText path text : InFolder (Except Failure Unit)) := by
  unfold saveText
  split
  · exact (isBlind_out _).bind fun _ => isBlind_pure _
  · refine (isBlind_writeText _ _).bind fun written => ?_
    rcases written with (e | e) | ⟨⟩ <;> exact isBlind_pure _

theorem isBlind_save (options : SolveOptions) (saved : SavedFormula) :
    IsBlind (save options saved : InFolder (Except Failure Unit)) := by
  refine (isBlind_saveText _ _).bind fun document => ?_
  rcases document with f | ⟨⟩
  · exact isBlind_pure _
  refine (isBlind_saveText _ _).bind fun text => ?_
  rcases text with f | ⟨⟩
  · exact isBlind_pure _
  · exact (isBlind_err _).bind fun _ => isBlind_pure _

/-- The seed that is given, or else one that nobody chose. -/
def chosenSeed (options : SolveOptions) : InFolder UInt64 :=
  match options.seed with
  | some seed => pure seed
  | none => Workplace.freshSeed

def SolveOptions.withSeed (options : SolveOptions) (seed : UInt64) : SolveOptions :=
  { options with seed := some seed }

/-- A search chooses its seed first. -/
theorem search_eq (options : SolveOptions) (d : Dataset) (config : Config)
    (first : Option Formula) :
    (search options d config first : InFolder (Except Trouble Unit)) =
      chosenSeed options >>= fun seed => search (options.withSeed seed) d config first := by
  obtain ⟨start, dataset, configuration, seed, generations, json, text⟩ := options
  cases seed <;> rfl

end SymbolicRegression.CommandLine
