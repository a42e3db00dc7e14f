import Mathlib.Tactic.SplitIfs
import SymbolicRegression.Proofs.Random.Outcome

/-!
# What is observed in the course of a draw

Not everything that a draw promises holds of all sources. `behind` collects what is observed from
one draw to the next, and `YieldsIf good` says of a draw that it yields certain results from every
source on which all that is observed is good. The rules follow those for all sources: what is
observed in the course of a bind is what the first draw observes and then what the second one does,
from where the first one left the source.
-/
namespace SymbolicRegression.Draw

variable {σ α β γ : Type}

/-- The result of a draw from one source satisfies `post`, and its failure satisfies `fault`. -/
def YieldsFrom (m : Draw σ α) (s : σ) (post : α → Prop) (fault : DrawError → Prop) : Prop :=
  match m s with
  | .ok (a, _) => post a
  | .error e => fault e

/-- A draw that cannot grow too deep, and that fails for no other reason, has a result. -/
theorem YieldsFrom.exists_ok {m : Draw σ α} {s : σ} {post : α → Prop}
    (h : m.YieldsFrom s post (· ≠ .tooDeep)) (drawn : ∀ e, m s = .error e → e = .tooDeep) :
    ∃ a s', m s = .ok (a, s') ∧ post a := by
  unfold YieldsFrom at h
  cases run : m s with
  | error e =>
    rw [run] at h
    exact absurd (drawn e run) h
  | ok result =>
    rw [run] at h
    exact ⟨result.1, result.2, rfl, h⟩

/-- The second draw starts from where the first one left the source. -/
theorem yieldsFrom_bind {m : Draw σ α} {f : α → Draw σ β} {s : σ} {mid : α → Prop}
    {post : β → Prop} {fault : DrawError → Prop} (hm : m.YieldsFrom s mid fault)
    (hf : ∀ a s', m s = .ok (a, s') → mid a → (f a).YieldsFrom s' post fault) :
    (m >>= f).YieldsFrom s post fault := by
  unfold YieldsFrom at hm ⊢
  cases run : m s with
  | error e =>
    rw [bind_of_error run]
    rwa [run] at hm
  | ok result =>
    rw [bind_of_ok run]
    rw [run] at hm
    exact hf result.1 result.2 run hm

/-- What is observed behind a draw. Behind one that fails there is nothing. -/
def behind (m : Draw σ α) (observe : α → σ → List γ) (s : σ) : List γ :=
  match m s with
  | .ok (a, s') => observe a s'
  | .error _ => []

theorem behind_of_ok {m : Draw σ α} {observe : α → σ → List γ} {s s' : σ} {a : α}
    (h : m s = .ok (a, s')) : behind m observe s = observe a s' := by
  rw [behind, h]

/-- What a draw yields from all sources on which everything that is observed is good. -/
def YieldsIf (good : γ → Prop) (m : Draw σ α) (observed : σ → List γ) (post : α → Prop)
    (fault : DrawError → Prop) : Prop :=
  ∀ s, (∀ x ∈ observed s, good x) → m.YieldsFrom s post fault

variable {good : γ → Prop} {m : Draw σ α} {f : α → Draw σ β} {first observed : σ → List γ}
  {rest : α → σ → List γ} {mid : α → Prop} {post : β → Prop} {fault : DrawError → Prop}

theorem Yields.yieldsIf {post : α → Prop} (h : m.Yields post fault) :
    YieldsIf good m observed post fault := fun s _ => h s

theorem YieldsIf.mono {post post' : α → Prop} (h : YieldsIf good m observed post fault)
    (hpost : ∀ a, post a → post' a) : YieldsIf good m observed post' fault := by
  intro s all
  have at_s := h s all
  unfold YieldsFrom at at_s ⊢
  cases run : m s with
  | error e =>
    rw [run] at at_s
    exact at_s
  | ok result =>
    rw [run] at at_s
    exact hpost result.1 at_s

theorem yieldsIf_bind (hm : YieldsIf good m first mid fault)
    (hf : ∀ a, mid a → YieldsIf good (f a) (rest a) post fault) :
    YieldsIf good (m >>= f) (fun s => first s ++ behind m rest s) post fault := by
  intro s all
  refine yieldsFrom_bind (hm s fun x hx => all x (List.mem_append_left _ hx)) ?_
  intro a s' run ha
  refine hf a ha s' fun x hx => all x (List.mem_append_right _ ?_)
  rwa [behind_of_ok run]

/-- Nothing needs to be observed in the course of the second draw. -/
theorem yieldsIf_seq (hm : YieldsIf good m first mid fault)
    (hf : ∀ a, mid a → (f a).Yields post fault) : YieldsIf good (m >>= f) first post fault :=
  fun s all => yieldsFrom_bind (hm s all) fun a s' _ ha => hf a ha s'

/-- Nothing needs to be observed in the course of the first draw. -/
theorem yieldsIf_behind (hm : m.Yields mid fault)
    (hf : ∀ a, mid a → YieldsIf good (f a) (rest a) post fault) :
    YieldsIf good (m >>= f) (behind m rest) post fault := by
  have silent : YieldsIf good m (fun _ => []) mid fault := hm.yieldsIf
  exact yieldsIf_bind silent hf

theorem yieldsIf_cons {post : α → Prop} {x : γ} (h : good x → YieldsIf good m observed post fault) :
    YieldsIf good m (fun s => x :: observed s) post fault := by
  intro s all
  exact h (all x List.mem_cons_self) s fun y hy => all y (List.mem_cons_of_mem x hy)

theorem yieldsIf_ite {post : α → Prop} {p : Prop} [Decidable p] {m₁ m₂ : Draw σ α}
    {observed₁ observed₂ : σ → List γ} (h₁ : p → YieldsIf good m₁ observed₁ post fault)
    (h₂ : ¬p → YieldsIf good m₂ observed₂ post fault) :
    YieldsIf good (if p then m₁ else m₂) (fun s => if p then observed₁ s else observed₂ s)
      post fault := by
  split_ifs with h
  · exact h₁ h
  · exact h₂ h

end SymbolicRegression.Draw
