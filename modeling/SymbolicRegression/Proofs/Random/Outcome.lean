import SymbolicRegression.Random.Draw

/-!
# What a draw may come to

`Yields m post fault` says of a draw that, whatever the source hands out, every result satisfies
`post` and every failure satisfies `fault`. The rules below follow the way draws are put together,
so a statement about a long draw is taken apart at its binds.
-/
namespace SymbolicRegression.Draw

variable {σ α β : Type}

/-- All results of a draw satisfy `post`, and all its failures satisfy `fault`. -/
def Yields (m : Draw σ α) (post : α → Prop) (fault : DrawError → Prop) : Prop :=
  ∀ s, match m s with
    | .ok (a, _) => post a
    | .error e => fault e

theorem yields_pure {a : α} {post : α → Prop} {fault : DrawError → Prop} (h : post a) :
    Yields (pure a : Draw σ α) post fault := fun _ => h

theorem yields_fail {e : DrawError} {post : α → Prop} {fault : DrawError → Prop} (h : fault e) :
    Yields (fail e : Draw σ α) post fault := fun _ => h

/-- What the first draw yields is what the second one may start from. -/
theorem yields_bind {m : Draw σ α} {f : α → Draw σ β} {mid : α → Prop} {post : β → Prop}
    {fault : DrawError → Prop} (hm : m.Yields mid fault)
    (hf : ∀ a, mid a → (f a).Yields post fault) : (m >>= f).Yields post fault := by
  intro s
  have first := hm s
  change match (m s >>= fun r => f r.1 r.2) with
    | .ok (a, _) => post a
    | .error e => fault e
  cases run : m s with
  | error e =>
    rw [run] at first
    exact first
  | ok result =>
    rw [run] at first
    exact hf result.1 first result.2

/-- A draw that does not depend on the result before it. -/
theorem yields_seq {m : Draw σ α} {f : α → Draw σ β} {post : β → Prop}
    {fault : DrawError → Prop} (hm : m.Yields (fun _ => True) fault)
    (hf : ∀ a, (f a).Yields post fault) : (m >>= f).Yields post fault :=
  yields_bind hm fun a _ => hf a

theorem yields_ite {p : Prop} [Decidable p] {m₁ m₂ : Draw σ α} {post : α → Prop}
    {fault : DrawError → Prop} (h₁ : p → m₁.Yields post fault) (h₂ : ¬p → m₂.Yields post fault) :
    (if p then m₁ else m₂).Yields post fault := by
  split
  next h => exact h₁ h
  next h => exact h₂ h

theorem Yields.mono {m : Draw σ α} {post post' : α → Prop} {fault fault' : DrawError → Prop}
    (h : m.Yields post fault) (hpost : ∀ a, post a → post' a)
    (hfault : ∀ e, fault e → fault' e) : m.Yields post' fault' := by
  intro s
  have at_s := h s
  cases run : m s with
  | error e =>
    rw [run] at at_s
    exact hfault e at_s
  | ok result =>
    rw [run] at at_s
    exact hpost result.1 at_s

/-- What holds of all outcomes for two reasons holds for both at once. -/
theorem Yields.and {m : Draw σ α} {post post' : α → Prop} {fault fault' : DrawError → Prop}
    (h : m.Yields post fault) (h' : m.Yields post' fault') :
    m.Yields (fun a => post a ∧ post' a) (fun e => fault e ∧ fault' e) := by
  intro s
  have first := h s
  have second := h' s
  cases run : m s <;> rw [run] at first second <;> exact ⟨first, second⟩

theorem Yields.ok {m : Draw σ α} {post : α → Prop} {fault : DrawError → Prop}
    (h : m.Yields post fault) {s s' : σ} {a : α} (run : m s = .ok (a, s')) : post a := by
  have at_s := h s
  rw [run] at at_s
  exact at_s

theorem Yields.error {m : Draw σ α} {post : α → Prop} {fault : DrawError → Prop}
    (h : m.Yields post fault) {s : σ} {e : DrawError} (run : m s = .error e) : fault e := by
  have at_s := h s
  rw [run] at at_s
  exact at_s

theorem bind_of_ok {m : Draw σ α} {f : α → Draw σ β} {s s' : σ} {a : α} (h : m s = .ok (a, s')) :
    (m >>= f) s = f a s' := by
  change (m s >>= fun r => f r.1 r.2) = _
  rw [h]
  rfl

theorem bind_of_error {m : Draw σ α} {f : α → Draw σ β} {s : σ} {e : DrawError}
    (h : m s = .error e) : (m >>= f) s = .error e := by
  change (m s >>= fun r => f r.1 r.2) = _
  rw [h]
  rfl

/-- Two draws that go on alike from everything the first draw yields are alike. -/
theorem bind_congr {m : Draw σ α} {f g : α → Draw σ β} {mid : α → Prop}
    {fault : DrawError → Prop} (hm : m.Yields mid fault) (h : ∀ a, mid a → f a = g a) :
    m >>= f = m >>= g := by
  funext s
  cases run : m s with
  | error e => rw [bind_of_error run, bind_of_error run]
  | ok result =>
    rw [bind_of_ok run, bind_of_ok run, h result.1 (hm.ok run)]

theorem yields_positionBelow {fault : DrawError → Prop} {size n : Nat}
    {draw : Draw σ { v : Nat // v < size }} (hn : 0 < n ∨ fault .emptyRange)
    (h : draw.Yields (fun _ => True) fault) :
    Yields (positionBelow size n draw) (fun _ => True) fault := by
  unfold positionBelow
  split
  next =>
    refine yields_seq h fun first => yields_ite (fun _ => ?_) fun _ => yields_pure trivial
    exact yields_seq h fun _ => yields_pure trivial
  next none => exact yields_fail (hn.resolve_left none)

variable [WordSource σ] {fault : DrawError → Prop}

theorem yields_word : Yields (word : Draw σ UInt32) (fun _ => True) fault := fun _ => trivial

theorem yields_wide : Yields (wide : Draw σ UInt64) (fun _ => True) fault :=
  yields_seq yields_word fun _ => yields_seq yields_word fun _ => yields_pure trivial

/-- Whether some draw with probability `p` is true. -/
def CanHit (p : Float) : Prop := (p == 1.0) = true ∨ 0 < hits p

instance (p : Float) : Decidable (CanHit p) := inferInstanceAs (Decidable (_ ∨ _))

/-- A chance fails only if it is no chance, and is true only if some word can be below its hits. -/
theorem yields_chance {p : Float} (h : p == 1.0 ∨ 0.0 ≤ p ∧ p < 1.0 ∨ fault .noChance) :
    Yields (chance p : Draw σ Bool) (fun b => b = true → CanHit p) fault := by
  refine yields_ite (fun sure => yields_pure fun _ => .inl sure) fun ne =>
    yields_ite (fun _ => ?_) fun outside => ?_
  · refine yields_seq yields_wide fun v => yields_pure fun below => .inr ?_
    have below : v.toNat < (hits p).toNat := UInt64.lt_iff_toNat_lt.mp (of_decide_eq_true below)
    exact UInt64.lt_iff_toNat_lt.mpr (Nat.zero_lt_of_lt below)
  · rcases h with sure | inside | allowed
    · exact absurd sure ne
    · exact absurd inside outside
    · exact yields_fail allowed

/-- A number between two ends comes from some wide word; of an empty range there is none, and
without a finite width neither. -/
theorem yields_between {last : RangeEnd} {low high : Float}
    (proper : last.isEmpty low high = false ∨ fault .emptyRange)
    (h : (high - low).isFinite = true ∨ fault .unboundedRange) :
    Yields (between last low high : Draw σ Float)
      (fun x => (high - low).isFinite = true ∧ ∃ v, x = unit v * (high - low) + low) fault := by
  refine yields_ite (fun empty => ?_) fun _ => yields_ite (fun finite => ?_) fun unbounded => ?_
  · exact yields_fail (proper.resolve_left (Bool.ne_false_iff.mpr empty))
  · exact yields_seq yields_wide fun v => yields_pure ⟨finite, v, rfl⟩
  · exact yields_fail (h.resolve_left unbounded)

/-- A position fails to come about only if there is nothing to choose from. -/
theorem yields_below {n : Nat} (hn : 0 < n ∨ fault .emptyRange) :
    Yields (below n : Draw σ (Fin n)) (fun _ => True) fault := by
  refine yields_ite (fun _ => ?_) fun _ => ?_
  · exact yields_positionBelow hn (yields_seq yields_word fun _ => yields_pure trivial)
  · exact yields_positionBelow hn (yields_seq yields_wide fun _ => yields_pure trivial)

end SymbolicRegression.Draw
