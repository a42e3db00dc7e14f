import SymbolicRegression.Proofs.CommandLine.Files
import SymbolicRegression.Proofs.CommandLine.Messages

/-!
# Saving a result

A result that has been saved into two files is in both of them. Whether it can be saved depends on
the paths and on what they lead to, but not on the result.
-/
namespace SymbolicRegression.CommandLine

variable {path text : String} {w w' : Surroundings}

/-- What comes of saving a text at a path, whatever the text is. -/
def savable (path : String) (f : Folder) : Except Failure Unit :=
  if isStream path then .ok ()
  else
    match f.target path with
    | .ok _ => .ok ()
    | .error (.create e) => .error ⟨"Failed to create output file: " ++ path, [e.message]⟩
    | .error (.write e) => .error ⟨"Failed to write " ++ path, [e.message]⟩

theorem writeText_run (path text : String) (w : Surroundings) :
    (Workplace.writeText path text : InFolder (Except WriteError Unit)) w =
      match w.folder.target path with
      | .ok place => (.ok (), { w with folder := w.folder.put place text.toUTF8 })
      | .error e => (.error e, w) := by
  simp only [Workplace.writeText]
  rw [Folder.writeText_eq]
  cases w.folder.target path <;> rfl

theorem saveText_of_file (file : isStream path = false) (text : String) (w : Surroundings) :
    saveText (m := InFolder) path text w =
      (savable path w.folder,
        match w.folder.target path with
        | .ok place => { w with folder := w.folder.put place (text ++ "\n").toUTF8 }
        | .error _ => w) := by
  unfold saveText savable
  rw [file, if_neg Bool.false_ne_true, if_neg Bool.false_ne_true, bind_run, writeText_run]
  rcases w.folder.target path with (e | e) | place <;> rfl

theorem saveText_of_stream (stream : isStream path = true) (text : String) (w : Surroundings) :
    saveText (m := InFolder) path text w = (.ok (), { w with out := w.out ++ (text ++ "\n") }) := by
  unfold saveText
  rw [stream, if_pos rfl]
  rfl

/-- Whether a text can be saved does not depend on it. -/
theorem saveText_result (path text : String) (w : Surroundings) :
    (saveText (m := InFolder) path text w).1 = savable path w.folder := by
  cases stream : isStream path with
  | true =>
    rw [saveText_of_stream stream, savable, stream]
    rfl
  | false => rw [saveText_of_file stream]

/-- A text that has been saved makes no difference to whether others can be. -/
theorem savable_after_saveText (path text text' : String) (same : w.folder = w'.folder)
    (other : String) :
    savable other (saveText (m := InFolder) path text w).2.folder =
      savable other (saveText (m := InFolder) path text' w').2.folder := by
  cases stream : isStream path with
  | true =>
    rw [saveText_of_stream stream, saveText_of_stream stream]
    exact congrArg (savable other) same
  | false =>
    rw [saveText_of_file stream, saveText_of_file stream, same]
    cases w'.folder.target path with
    | error e => exact congrArg (savable other) same
    | ok place =>
      unfold savable
      rw [Folder.target_put_congr (text ++ "\n").toUTF8 (text' ++ "\n").toUTF8]

theorem writeText_of_saveText (file : isStream path = false)
    (done : (saveText (m := InFolder) path text w).1 = .ok ()) :
    w.folder.writeText path (text ++ "\n") =
      .ok (saveText (m := InFolder) path text w).2.folder := by
  rw [saveText_result, savable, file, if_neg Bool.false_ne_true] at done
  rw [saveText_of_file file, Folder.writeText_eq]
  rcases target : w.folder.target path with (e | e) | place
  · rw [target] at done
    cases done
  · rw [target] at done
    cases done
  · rfl

/-- The document is saved first and then the text; what cannot be saved ends it. -/
theorem save_run (options : SolveOptions) (saved : SavedFormula) (w : Surroundings) :
    save (m := InFolder) options saved w =
      match saveText (m := InFolder) options.jsonOutput saved.toValue.indented w with
      | (.error f, w') => (.error f, w')
      | (.ok (), w') =>
        match saveText (m := InFolder) options.textOutput saved.formula.render w' with
        | (.error f, w'') => (.error f, w'')
        | (.ok (), w'') => (.ok (), { w'' with err := w''.err ++ savedLines options saved }) := by
  unfold save
  rw [bind_run]
  rcases saveText (m := InFolder) options.jsonOutput saved.toValue.indented w with ⟨f | ⟨⟩, w'⟩
  · rfl
  · dsimp only
    rw [bind_run]
    rcases saveText (m := InFolder) options.textOutput saved.formula.render w' with ⟨f | ⟨⟩, w''⟩
    · rfl
    · rfl

theorem save_result (options : SolveOptions) (saved : SavedFormula) (w : Surroundings) :
    (save (m := InFolder) options saved w).1 =
      (savable options.jsonOutput w.folder >>= fun _ => savable options.textOutput
        (saveText (m := InFolder) options.jsonOutput saved.toValue.indented w).2.folder) := by
  rw [save_run, ← saveText_result options.jsonOutput saved.toValue.indented,
    ← saveText_result options.textOutput saved.formula.render]
  rcases saveText (m := InFolder) options.jsonOutput saved.toValue.indented w with ⟨f | ⟨⟩, w'⟩
  · rfl
  · change _ = (saveText (m := InFolder) options.textOutput saved.formula.render w').1
    dsimp only
    rcases saveText (m := InFolder) options.textOutput saved.formula.render w' with
      ⟨f | ⟨⟩, w''⟩ <;> rfl

/-- Whether a result can be saved depends on the folder alone. -/
theorem save_result_congr (options : SolveOptions) (saved saved' : SavedFormula)
    (same : w.folder = w'.folder) :
    (save (m := InFolder) options saved w).1 = (save (m := InFolder) options saved' w').1 := by
  rw [save_result, save_result, same,
    savable_after_saveText _ saved.toValue.indented saved'.toValue.indented same]

/-- A result can be saved into two files if there can be such files, one after the other. -/
theorem save_eq_ok {options : SolveOptions} {saved : SavedFormula} {place place' : List String}
    (json : isStream options.jsonOutput = false) (text : isStream options.textOutput = false)
    (document : w.folder.target options.jsonOutput = .ok place)
    (rendering : ∀ content, (w.folder.put place content).target options.textOutput = .ok place') :
    (save (m := InFolder) options saved w).1 = .ok () := by
  rw [save_result, saveText_of_file json, document]
  dsimp only
  rw [savable, savable, json, text, document, rendering]
  rfl

/-- The text of a result that has been saved is in its file, wherever the document is. -/
theorem readText_textOutput_of_save {options : SolveOptions} {saved : SavedFormula}
    (text : isStream options.textOutput = false)
    (done : (save (m := InFolder) options saved w).1 = .ok ()) :
    (save (m := InFolder) options saved w).2.folder.readText options.textOutput =
      .ok (saved.formula.render ++ "\n") := by
  rw [save_run] at done ⊢
  rcases first : saveText (m := InFolder) options.jsonOutput saved.toValue.indented w with
    ⟨f | ⟨⟩, w'⟩
  · rw [first] at done
    cases done
  rw [first] at done
  dsimp only at done ⊢
  rcases second : saveText (m := InFolder) options.textOutput saved.formula.render w' with
    ⟨f | ⟨⟩, w''⟩
  · rw [second] at done
    cases done
  have rendering := writeText_of_saveText text (congrArg Prod.fst second)
  rw [second] at rendering
  exact Folder.readText_of_writeText rendering

/-- A result that has been saved into two files is in both of them. -/
theorem readText_of_save {options : SolveOptions} {saved : SavedFormula}
    (json : isStream options.jsonOutput = false) (text : isStream options.textOutput = false)
    (distinct : w.folder.follow options.jsonOutput (Folder.names options.jsonOutput) ≠
      w.folder.follow options.textOutput (Folder.names options.textOutput))
    (done : (save (m := InFolder) options saved w).1 = .ok ()) :
    (save (m := InFolder) options saved w).2.folder.readText options.jsonOutput =
        .ok (saved.toValue.indented ++ "\n") ∧
      (save (m := InFolder) options saved w).2.folder.readText options.textOutput =
        .ok (saved.formula.render ++ "\n") := by
  rw [save_run] at done ⊢
  rcases first : saveText (m := InFolder) options.jsonOutput saved.toValue.indented w with
    ⟨f | ⟨⟩, w'⟩
  · rw [first] at done
    cases done
  rw [first] at done
  dsimp only at done ⊢
  rcases second : saveText (m := InFolder) options.textOutput saved.formula.render w' with
    ⟨f | ⟨⟩, w''⟩
  · rw [second] at done
    cases done
  dsimp only
  have document := writeText_of_saveText json (congrArg Prod.fst first)
  have rendering := writeText_of_saveText text (congrArg Prod.fst second)
  rw [first] at document
  rw [second] at rendering
  exact Folder.readText_writeText_writeText document rendering distinct

end SymbolicRegression.CommandLine
