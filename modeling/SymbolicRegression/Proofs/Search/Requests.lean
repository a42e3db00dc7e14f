import Mathlib.Data.ENat.Lattice
import SymbolicRegression.Search.StopSource

/-!
# The first request to stop

A source is polled again and again, and tokens may be raised between the polls. What counts is the
first poll that asks to stop. It can be told from the parts of a source: a limit asks at its number
of polls, a source that is not there never does, and of two sources the earlier one decides. That
the second of two sources is not polled when the first one asks makes no difference, since up to
the first request both are polled every time.
-/
namespace SymbolicRegression.Search

/-- The least position at which a sequence of answers holds, infinite if there is none. -/
noncomputable def firstPosition (answers : ℕ → Bool) : ℕ∞ :=
  ⨅ k, ⨅ (_ : answers k = true), (k : ℕ∞)

theorem le_firstPosition_iff {answers : ℕ → Bool} {n : ℕ} :
    n ≤ firstPosition answers ↔ ∀ k < n, answers k = false := by
  unfold firstPosition
  rw [le_iInf₂_iff]
  constructor
  · intro h k lt
    by_contra holds
    rw [Bool.not_eq_false] at holds
    exact absurd lt (not_lt.mpr (Nat.cast_le.mp (h k holds)))
  · intro h k holds
    rw [Nat.cast_le]
    by_contra lt
    rw [h k (not_le.mp lt)] at holds
    cases holds

theorem lt_firstPosition_iff {answers : ℕ → Bool} {n : ℕ} :
    n < firstPosition answers ↔ ∀ k ≤ n, answers k = false := by
  rw [← Order.add_one_le_iff_of_not_isMax (by simp), ← Nat.cast_one, ← Nat.cast_add,
    le_firstPosition_iff]
  simp only [Nat.lt_succ_iff]

/-- At the first position the answer holds, and before it none does. -/
theorem firstPosition_eq_iff {answers : ℕ → Bool} {n : ℕ} :
    firstPosition answers = n ↔ answers n = true ∧ ∀ k < n, answers k = false := by
  constructor
  · intro eq
    have before := le_firstPosition_iff.mp eq.ge
    refine ⟨?_, before⟩
    by_contra quiet
    have later : (n : ℕ∞) < firstPosition answers := lt_firstPosition_iff.mpr fun k le => by
      rcases le.eq_or_lt with rfl | lt
      · exact Bool.eq_false_iff.mpr quiet
      · exact before k lt
    exact absurd eq later.ne'
  · rintro ⟨holds, before⟩
    refine le_antisymm ?_ (le_firstPosition_iff.mpr before)
    exact iInf₂_le n holds

/-- Two sequences have the same first position if each is quiet as long as the other one is. -/
theorem firstPosition_eq_of_forall {answers : ℕ → Bool} {x : ℕ∞}
    (h : ∀ n : ℕ, n ≤ x ↔ ∀ k < n, answers k = false) : firstPosition answers = x := by
  refine le_antisymm (ENat.forall_natCast_le_iff_le.mp ?_) (ENat.forall_natCast_le_iff_le.mp ?_)
  · intro n le
    exact (h n).mpr (le_firstPosition_iff.mp le)
  · intro n le
    exact le_firstPosition_iff.mpr ((h n).mp le)

namespace StopSource

variable (raised : ℕ → String → Bool)

/-- The source behind so many polls. The polls are counted from one, and `raised k` tells which
tokens are raised at the `k`-th of them. -/
def polled (stop : StopSource) : ℕ → StopSource
  | 0 => stop
  | k + 1 => ((polled stop k).poll (raised (k + 1))).2

/-- The answer to the `k`-th poll. -/
def answer (stop : StopSource) : ℕ → Bool
  | 0 => false
  | k + 1 => ((polled raised stop k).poll (raised (k + 1))).1

/-- The first poll that asks to stop. -/
noncomputable def firstRequest (stop : StopSource) : ℕ∞ := firstPosition (stop.answer raised)

variable {raised}

theorem polled_succ (stop : StopSource) (k : ℕ) :
    stop.polled raised (k + 1) = ((stop.polled raised k).poll (raised (k + 1))).2 := rfl

theorem answer_succ (stop : StopSource) (k : ℕ) :
    stop.answer raised (k + 1) = ((stop.polled raised k).poll (raised (k + 1))).1 := rfl

theorem answer_eq_false_of_le {stop : StopSource} {n k : ℕ}
    (h : ∀ j < n + 1, stop.answer raised j = false) (le : k ≤ n) : stop.answer raised k = false :=
  h k (Nat.lt_succ_of_le le)

theorem polled_present (source : StopSource) (k : ℕ) :
    (present source).polled raised k = present (source.polled raised k) := by
  induction k with
  | zero => rfl
  | succ k ih =>
    rw [polled_succ, ih]
    rfl

theorem polled_absent (k : ℕ) : absent.polled raised k = absent := by
  induction k with
  | zero => rfl
  | succ k ih =>
    rw [polled_succ, ih]
    rfl

theorem polled_answers (sequence : ℕ → Bool) (n k : ℕ) :
    (answers sequence n).polled raised k = answers sequence (n + k) := by
  induction k with
  | zero => rfl
  | succ k ih =>
    rw [polled_succ, ih]
    rfl

theorem polled_limit (raised : ℕ → String → Bool) (n : UInt64) (k : ℕ) :
    ∃ m : UInt64, (limit n).polled raised k = limit m ∧ m.toNat = n.toNat - k := by
  induction k with
  | zero => exact ⟨n, rfl, rfl⟩
  | succ k ih =>
    obtain ⟨m, eq, value⟩ := ih
    refine ⟨if m = 0 then 0 else m - 1, by rw [polled_succ, eq]; rfl, ?_⟩
    split_ifs with zero
    · rw [zero] at value
      change 0 = n.toNat - k at value
      change 0 = n.toNat - (k + 1)
      omega
    · have pos : 1 ≤ m := by
        rw [UInt64.le_iff_toNat_le]
        exact Nat.pos_of_ne_zero fun h => zero (UInt64.toNat_inj.mp h)
      rw [UInt64.toNat_sub_of_le _ _ pos, value, Nat.sub_add_eq]
      rfl

/-- The answer of a limit is whether nothing remains of it. -/
theorem answer_limit_eq {n m : UInt64} {k : ℕ}
    (h : (limit n).polled raised (k + 1) = limit m) :
    (limit n).answer raised (k + 1) = decide (m = 0) := by
  obtain ⟨j, before, -⟩ := polled_limit raised n k
  rw [polled_succ, before] at h
  rw [answer_succ, before, ← limit.inj h]
  rfl

/-- A limit asks to stop from its number of polls on. -/
theorem answer_limit (n : UInt64) (k : ℕ) :
    (limit n).answer raised (k + 1) = true ↔ n.toNat ≤ k + 1 := by
  obtain ⟨m, eq, value⟩ := polled_limit raised n (k + 1)
  rw [answer_limit_eq eq, decide_eq_true_iff, ← UInt64.toNat_inj, value]
  exact Nat.sub_eq_zero_iff_le

theorem poll_either_of_asking {tokens : String → Bool} {first second : StopSource}
    (asks : (first.poll tokens).1 = true) :
    (either first second).poll tokens = (true, either (first.poll tokens).2 second) := by
  change (if (first.poll tokens).1 then _ else _) = _
  rw [if_pos asks]

theorem poll_either_of_quiet {tokens : String → Bool} {first second : StopSource}
    (quiet : (first.poll tokens).1 = false) :
    (either first second).poll tokens =
      ((second.poll tokens).1, either (first.poll tokens).2 (second.poll tokens).2) := by
  change (if (first.poll tokens).1 then _ else _) = _
  rw [if_neg (Bool.eq_false_iff.mp quiet)]

/-- As long as the first of two sources does not ask to stop, both of them are polled. -/
theorem polled_either {first second : StopSource} {k : ℕ}
    (quiet : ∀ j ≤ k, first.answer raised j = false) :
    (either first second).polled raised k
      = either (first.polled raised k) (second.polled raised k) := by
  induction k with
  | zero => rfl
  | succ k ih =>
    have silent : ((first.polled raised k).poll (raised (k + 1))).1 = false := quiet (k + 1) le_rfl
    rw [polled_succ, ih fun j le => quiet j (le.trans k.le_succ), poll_either_of_quiet silent]
    rfl

theorem answer_either {first second : StopSource} {k : ℕ}
    (quiet : ∀ j ≤ k, first.answer raised j = false) :
    (either first second).answer raised (k + 1)
      = (first.answer raised (k + 1) || second.answer raised (k + 1)) := by
  rw [answer_succ, polled_either quiet, answer_succ, answer_succ]
  cases asks : ((first.polled raised k).poll (raised (k + 1))).1 with
  | true => rw [poll_either_of_asking asks, Bool.true_or]
  | false => rw [poll_either_of_quiet asks, Bool.false_or]

/-- Two sources do not ask to stop as long as neither of them does. -/
theorem quiet_either {first second : StopSource} {n : ℕ} :
    (∀ k < n, (either first second).answer raised k = false) ↔
      (∀ k < n, first.answer raised k = false) ∧ ∀ k < n, second.answer raised k = false := by
  induction n with
  | zero => simp
  | succ n ih =>
    rw [Nat.forall_lt_succ_right, Nat.forall_lt_succ_right, Nat.forall_lt_succ_right, ih]
    -- nobody answers before the first poll; at a later one the second source is polled only as
    -- the first one has been quiet so far, on both sides of the equivalence
    cases n with
    | zero => simp [answer]
    | succ n =>
      constructor
      · rintro ⟨⟨first_quiet, second_quiet⟩, silent⟩
        rw [answer_either fun j le => answer_eq_false_of_le first_quiet le,
          Bool.or_eq_false_iff] at silent
        exact ⟨⟨first_quiet, silent.1⟩, second_quiet, silent.2⟩
      · rintro ⟨⟨first_quiet, first_silent⟩, second_quiet, second_silent⟩
        refine ⟨⟨first_quiet, second_quiet⟩, ?_⟩
        rw [answer_either fun j le => answer_eq_false_of_le first_quiet le, first_silent,
          second_silent, Bool.or_false]

/-- No poll comes before the first one. -/
theorem one_le_firstRequest (stop : StopSource) : 1 ≤ stop.firstRequest raised := by
  refine le_firstPosition_iff.mpr fun k lt => ?_
  rw [Nat.lt_one_iff.mp lt]
  rfl

/-- A limit asks to stop at its number of polls, but not before the first one. -/
theorem firstRequest_limit (n : UInt64) :
    (limit n).firstRequest raised = max 1 n.toNat := by
  refine firstPosition_eq_iff.mpr ⟨?_, ?_⟩
  · obtain ⟨k, eq⟩ : ∃ k, max 1 n.toNat = k + 1 := Nat.exists_eq_succ_of_ne_zero (by omega)
    rw [eq]
    exact (answer_limit n k).mpr (by omega)
  · intro k lt
    cases k with
    | zero => rfl
    | succ k =>
      rw [Bool.eq_false_iff, Ne, answer_limit]
      omega

/-- A source that is not there never asks to stop. -/
theorem firstRequest_absent : absent.firstRequest raised = ⊤ := by
  refine firstPosition_eq_of_forall fun n => iff_of_true le_top fun k _ => ?_
  cases k with
  | zero => rfl
  | succ k =>
    rw [answer_succ, polled_absent]
    rfl

/-- A source that is there asks to stop when it does. -/
theorem firstRequest_present (source : StopSource) :
    (present source).firstRequest raised = source.firstRequest raised := by
  have same : (present source).answer raised = source.answer raised := by
    funext k
    cases k with
    | zero => rfl
    | succ k =>
      rw [answer_succ, polled_present]
      rfl
  rw [firstRequest, same, firstRequest]

/-- Of two sources the one that asks first decides. -/
theorem firstRequest_either (first second : StopSource) :
    (either first second).firstRequest raised
      = min (first.firstRequest raised) (second.firstRequest raised) := by
  refine firstPosition_eq_of_forall fun n => ?_
  rw [le_min_iff, firstRequest, firstRequest, le_firstPosition_iff, le_firstPosition_iff]
  exact quiet_either.symm

/-- A source that may be absent asks to stop when it does, if it is there. -/
theorem firstRequest_ofOption (source : Option StopSource) :
    (ofOption source).firstRequest raised = source.elim ⊤ (firstRequest raised) := by
  cases source with
  | none => exact firstRequest_absent
  | some source => exact firstRequest_present source

/-- A sequence of answers, the first of which is given to the first poll, asks to stop behind its
first position. -/
theorem firstRequest_answers (sequence : ℕ → Bool) :
    (answers sequence 0).firstRequest raised = firstPosition sequence + 1 := by
  have given (j : ℕ) : (answers sequence 0).answer raised (j + 1) = sequence j := by
    rw [answer_succ, polled_answers, Nat.zero_add]
    rfl
  refine firstPosition_eq_of_forall fun n => ?_
  cases n with
  | zero => simp
  | succ n =>
    rw [Nat.cast_succ, ENat.add_le_add_iff_right ENat.one_ne_top, le_firstPosition_iff]
    constructor
    · intro quiet k lt
      cases k with
      | zero => rfl
      | succ k =>
        rw [given]
        exact quiet k (Nat.lt_of_succ_lt_succ lt)
    · intro quiet k lt
      rw [← given]
      exact quiet (k + 1) (Nat.succ_lt_succ lt)

/-- A sequence of answers asks to stop where it says so. -/
theorem firstRequest_answers_eq_iff (sequence : ℕ → Bool) {k : ℕ} :
    (answers sequence 0).firstRequest raised = (k + 1 : ℕ) ↔
      sequence k = true ∧ ∀ j < k, sequence j = false := by
  rw [firstRequest_answers, Nat.cast_succ,
    (ENat.add_left_injective_of_ne_top ENat.one_ne_top).eq_iff, firstPosition_eq_iff]

end StopSource
end SymbolicRegression.Search
