import SymbolicRegression.CommandLine.Solve
import SymbolicRegression.Proofs.Search.Ending

/-!
# When a search ends

A search ends behind its limit, or behind the poll by which the keyboard first asks to stop,
whichever comes first. What comes in from the keyboard is finite, so the generations that a search
is given are enough for that; a search that does not finish is one that is never asked to stop.
-/
namespace SymbolicRegression.CommandLine

open Search

namespace Watcher

variable {watcher : Watcher}

theorem hasRequest_iff {k : ℕ} : watcher.hasRequest k = true ↔
    ∃ readings ∈ watcher.arrivals.take (k + 1), ∃ reading ∈ readings, reading.isRequest = true := by
  simp only [hasRequest, List.any_eq_true]

/-- The poll by which a stop has first been asked for, infinite if none ever is. -/
noncomputable def firstRequest (watcher : Watcher) : ℕ∞ := firstPosition watcher.hasRequest + 1

theorem firstRequest_requests (raised : ℕ → String → Bool) :
    watcher.requests.firstRequest raised = watcher.firstRequest :=
  StopSource.firstRequest_answers _

/-- A request comes with the last of what comes in, or before it, or never. -/
theorem firstRequest_le_or_eq_top :
    watcher.firstRequest ≤ watcher.arrivals.length ∨ watcher.firstRequest = ⊤ := by
  by_cases asks : ∃ k, watcher.hasRequest k = true
  · left
    obtain ⟨k, asks⟩ := asks
    obtain ⟨readings, early, request⟩ := hasRequest_iff.mp asks
    have arrived := List.mem_of_mem_take early
    obtain ⟨n, length⟩ : ∃ n, watcher.arrivals.length = n + 1 :=
      Nat.exists_eq_succ_of_ne_zero (List.length_pos_of_mem arrived).ne'
    have last : watcher.hasRequest n = true := by
      refine hasRequest_iff.mpr ⟨readings, ?_, request⟩
      rwa [← length, List.take_length]
    rw [firstRequest, length, Nat.cast_succ, ENat.add_le_add_iff_right ENat.one_ne_top]
    exact iInf₂_le n last
  · right
    have never : firstPosition watcher.hasRequest = ⊤ :=
      firstPosition_eq_of_forall fun n =>
        iff_of_true le_top fun k _ => Bool.eq_false_iff.mpr fun h => asks ⟨k, h⟩
    rw [firstRequest, never, top_add]

end Watcher

/-- The poll by which the keyboard first asks to stop, infinite if it never does. -/
noncomputable def Keyboard.firstRequest : Keyboard → ℕ∞
  | unavailable _ => ⊤
  | watched watcher => watcher.firstRequest

variable {limit : Option UInt64} {watcher : Option Watcher}

/-- The generation behind which a search ends, infinite if it never does. -/
noncomputable def lastGeneration (limit : Option UInt64) (watcher : Option Watcher) : ℕ∞ :=
  min (limit.elim ⊤ fun n => (max 1 n.toNat : ℕ)) (watcher.elim ⊤ Watcher.firstRequest)

theorem firstRequest_stopSource (limit : Option UInt64) (watcher : Option Watcher)
    (raised : ℕ → String → Bool) :
    (stopSource limit watcher).firstRequest raised = lastGeneration limit watcher := by
  rw [stopSource, StopSource.firstRequest_either, StopSource.firstRequest_ofOption,
    StopSource.firstRequest_ofOption, lastGeneration]
  congr 1
  · cases limit with
    | none => rfl
    | some n => exact StopSource.firstRequest_limit n
  · cases watcher with
    | none => rfl
    | some watcher => exact Watcher.firstRequest_requests raised

/-- The generations that a search is given are enough, if it ever ends. -/
theorem lastGeneration_le_or_eq_top (limit : Option UInt64) (watcher : Option Watcher) :
    lastGeneration limit watcher ≤ patience limit watcher ∨ lastGeneration limit watcher = ⊤ := by
  unfold lastGeneration
  cases limit with
  | some n => exact .inl (min_le_left _ _)
  | none =>
    rw [Option.elim_none, min_eq_right le_top]
    cases watcher with
    | some watcher => exact watcher.firstRequest_le_or_eq_top
    | none => exact .inr rfl

/-- A search with a limit ends. -/
theorem lastGeneration_ne_top (n : UInt64) (watcher : Option Watcher) :
    lastGeneration (some n) watcher ≠ ⊤ :=
  ne_top_of_le_ne_top (ENat.natCast_ne_top (max 1 n.toNat)) (min_le_left _ _)

/-- How many generations a search goes through: those up to the last one, or all that it is given
if there is no last one. -/
noncomputable def generations (limit : Option UInt64) (watcher : Option Watcher) : ℕ :=
  (min (lastGeneration limit watcher) (patience limit watcher)).toNat

/-- A climb when it has been asked to stop. -/
def ended (climb : Climb Pcg) (limit : Option UInt64) (watcher : Option Watcher) :
    Except Trouble (Climb Pcg) :=
  match climb.run display (patience limit watcher) (stopSource limit watcher) "" with
  | .error e => .error (.crash e)
  | .ok (last, _) =>
    match watcher.bind Watcher.stuck with
    | some reason => .error (.failure ⟨"Failed to restore the terminal mode", [reason]⟩)
    | none => .ok last

/-- Why the generations of a search may have been in vain, whatever they have come to: nobody asks
to stop, or the terminal cannot be set back. -/
noncomputable def spoiled (limit : Option UInt64) (watcher : Option Watcher) : Option Trouble :=
  if lastGeneration limit watcher = ⊤ then some (.crash .unfinished)
  else
    (watcher.bind Watcher.stuck).map fun reason =>
      .failure ⟨"Failed to restore the terminal mode", [reason]⟩

/-- A search fails where one of its generations does, and comes to the climb behind them otherwise,
unless they were in vain. -/
theorem ended_eq {d : Dataset} {config : Config} {climb : Climb Pcg}
    (h : climb.Invariant d config []) :
    ended climb limit watcher =
      match climb.steps (generations limit watcher) with
      | .error e => .error (.crash (.draw e))
      | .ok (last, _) =>
        match spoiled limit watcher with
        | some t => .error t
        | none => .ok last := by
  have asks := firstRequest_stopSource limit watcher
  unfold generations spoiled ended
  cases ends : lastGeneration limit watcher with
  | top =>
    have never (raised : ℕ → String → Bool) : (stopSource limit watcher).firstRequest raised = ⊤ :=
      (asks raised).trans ends
    rw [min_eq_right le_top, ENat.toNat_natCast, if_pos rfl]
    cases ran : climb.steps (patience limit watcher) with
    | error e =>
      rw [Climb.run_of_steps_error display "" (fun raised => (never raised).symm ▸ le_top) le_rfl
        h ran]
    | ok result => rw [Climb.run_of_never display "" never h ran]
  | coe k =>
    have enough : k ≤ patience limit watcher := by
      simpa [ends] using lastGeneration_le_or_eq_top limit watcher
    have last (raised : ℕ → String → Bool) : (stopSource limit watcher).firstRequest raised = k :=
      (asks raised).trans ends
    rw [min_eq_left (Nat.cast_le.mpr enough), ENat.toNat_natCast, if_neg (ENat.natCast_ne_top k)]
    cases ran : climb.steps k with
    | error e =>
      rw [Climb.run_of_steps_error display "" (fun raised => (last raised).ge) enough h ran]
    | ok result =>
      obtain ⟨shown, run⟩ := Climb.run_of_steps display "" last enough h ran
      rw [run]
      cases watcher.bind Watcher.stuck <;> rfl

end SymbolicRegression.CommandLine
