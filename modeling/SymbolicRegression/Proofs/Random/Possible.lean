import Mathlib.Tactic.NormNum
import SymbolicRegression.Proofs.Random.Outcome

/-!
# What a draw can come to

`CanYield m a` says that some words lead a draw to the result `a`: from every source that begins
with them the draw comes to `a`, and it takes these words and no others. The rules below follow the
way draws are put together, so the words for a long draw are those for its parts in a row. A chance
strictly between zero and one can turn out either way, and every position can be drawn.
-/
namespace SymbolicRegression

namespace WordSource

variable {σ : Type} [WordSource σ]

/-- Whether the first words of a source are the given ones. -/
def Begins (s : σ) : List UInt32 → Prop
  | [] => True
  | w :: words => word s = w ∧ Begins (rest s) words

theorem drop_add (m n : ℕ) (s : σ) : drop (m + n) s = drop n (drop m s) := by
  induction m generalizing s with
  | zero => simp [drop]
  | succ m ih => simp [Nat.succ_add, drop, ih]

theorem begins_append {s : σ} {words others : List UInt32} :
    Begins s (words ++ others) ↔ Begins s words ∧ Begins (drop words.length s) others := by
  induction words generalizing s with
  | nil => simp [Begins, drop]
  | cons w words ih => simp [Begins, drop, ih, and_assoc]

end WordSource

/-- A script begins with its words. -/
theorem Script.begins_ofWords (words : List UInt32) :
    WordSource.Begins (Script.ofWords words.toArray) words := by
  have behind (before after : List UInt32) (h : words = before ++ after) :
      WordSource.Begins (⟨words.toArray, before.length⟩ : Script) after := by
    induction after generalizing before with
    | nil => trivial
    | cons w after ih =>
      have inside : before.length < words.length := by simp [h]
      have next := ih (before ++ [w]) (by simp [h])
      rw [List.length_append, List.length_singleton] at next
      refine ⟨?_, next⟩
      show (words.toArray[before.length % words.toArray.size]?).getD 0 = w
      rw [List.size_toArray, Nat.mod_eq_of_lt inside]
      simp [h]
  exact behind [] words rfl

namespace Draw

open WordSource

variable {α β : Type}

/-- Some words lead a draw to a result, whatever comes behind them. -/
def CanYield (m : (σ : Type) → [WordSource σ] → Draw σ α) (a : α) : Prop :=
  ∃ words : List UInt32, ∀ (σ : Type) [WordSource σ] (s : σ), Begins s words →
    m σ s = .ok (a, drop words.length s)

theorem canYield_pure (a : α) : CanYield (fun _ => pure a) a := ⟨[], fun _ _ _ _ => rfl⟩

/-- First the words for the first draw, then those for what it goes on to. -/
theorem canYield_bind {m : (σ : Type) → [WordSource σ] → Draw σ α}
    {f : α → (σ : Type) → [WordSource σ] → Draw σ β} {a : α} {b : β} (hm : CanYield m a)
    (hf : CanYield (f a) b) : CanYield (fun σ => m σ >>= fun a => f a σ) b := by
  obtain ⟨words, first⟩ := hm
  obtain ⟨others, second⟩ := hf
  refine ⟨words ++ others, fun σ _ s begins => ?_⟩
  obtain ⟨now, later⟩ := begins_append.mp begins
  show (m σ >>= fun a => f a σ) s = _
  rw [bind_of_ok (first σ s now), second σ _ later, List.length_append, drop_add]

theorem canYield_word (w : UInt32) : CanYield (fun _ => word) w :=
  ⟨[w], fun _ _ _ begins => by rw [← begins.1]; rfl⟩

def ofHalves (low high : UInt32) : UInt64 := low.toUInt64 ||| high.toUInt64 <<< 32

theorem canYield_wide (low high : UInt32) : CanYield (fun _ => wide) (ofHalves low high) :=
  canYield_bind (canYield_word low) (canYield_bind (canYield_word high) (canYield_pure _))

/-- Whether a chance can turn out either way. -/
def IsOpen (p : Float) : Prop := ¬(p == 1.0) = true ∧ (0.0 ≤ p ∧ p < 1.0) ∧ 0 < hits p

instance (p : Float) : Decidable (IsOpen p) := inferInstanceAs (Decidable (_ ∧ _ ∧ _))

theorem canYield_chance {p : Float} (h : IsOpen p) (b : Bool) :
    CanYield (fun _ => chance p) b := by
  obtain ⟨unsure, inside, some_hit⟩ := h
  have drawn (low high : UInt32) (side : decide (ofHalves low high < hits p) = b) :
      CanYield (fun _ => chance p) b := by
    simp only [chance, if_neg unsure, if_pos inside]
    rw [← side]
    exact canYield_bind (canYield_wide low high) (canYield_pure _)
  cases b with
  | true => exact drawn 0 0 (decide_eq_true some_hit)
  | false =>
    -- no word is greater than the one of nothing but ones
    refine drawn 0xFFFFFFFF 0xFFFFFFFF (decide_eq_false ?_)
    rw [UInt64.lt_iff_toNat_lt, not_lt]
    exact Nat.le_of_lt_succ (hits p).toNat_lt

/-- A draw that is made if a chance comes up. -/
theorem canYield_hit {p : Float} (h : IsOpen p) {yes no : (σ : Type) → [WordSource σ] → Draw σ α}
    {a : α} (hyes : CanYield yes a) :
    CanYield (fun σ => chance p >>= fun b => if b = true then yes σ else no σ) a :=
  canYield_bind (canYield_chance h true) hyes

/-- A draw that is made unless a chance comes up. -/
theorem canYield_miss {p : Float} (h : IsOpen p) {yes no : (σ : Type) → [WordSource σ] → Draw σ α}
    {a : α} (hno : CanYield no a) :
    CanYield (fun σ => chance p >>= fun b => if b = true then yes σ else no σ) a :=
  canYield_bind (canYield_chance h false) (by simpa using hno)

theorem canYield_between {last : RangeEnd} {low high : Float}
    (proper : last.isEmpty low high = false) (finite : (high - low).isFinite = true)
    (first second : UInt32) :
    CanYield (fun _ => between last low high)
      (unit (ofHalves first second) * (high - low) + low) := by
  simp only [between, if_neg (Bool.eq_false_iff.mp proper), if_pos finite]
  exact canYield_bind (canYield_wide first second) (canYield_pure _)

/-- The least draw on the step that is dealt out to a position stands for it, whatever is left
open: a second draw of zero does not move on to the next one. -/
theorem exists_position {size n i : ℕ} (hi : i < n) (hn : n ≤ size) :
    ∃ first < size, position size n first 0 = i := by
  have positive : 0 < n := by omega
  obtain ⟨first, low, high⟩ : ∃ first, i * size ≤ first * n ∧ first * n ≤ i * size + (n - 1) := by
    refine ⟨(i * size + (n - 1)) / n, ?_, Nat.div_mul_le_self _ n⟩
    have := Nat.lt_div_mul_add (a := i * size + (n - 1)) positive
    omega
  have inside : first < size := by
    by_contra! large
    have whole : n * size ≤ first * n := by
      rw [Nat.mul_comm first]
      exact Nat.mul_le_mul_left n large
    have next : (i + 1) * size ≤ n * size := Nat.mul_le_mul_right size hi
    rw [Nat.succ_mul] at next
    omega
  have step : first * n / size = i := by
    rw [Nat.div_eq_iff (by omega)]
    omega
  have part : first * n % size < size := Nat.mod_lt _ (by omega)
  refine ⟨first, inside, ?_⟩
  simp only [position, step, Nat.zero_mul, Nat.zero_div, Nat.add_zero]
  rw [if_neg (by omega)]

/-- If every value can be drawn, so can every position. -/
theorem canYield_positionBelow {size n : ℕ}
    {draw : (σ : Type) → [WordSource σ] → Draw σ { v : ℕ // v < size }}
    (all : ∀ v, CanYield draw v) (hn : n ≤ size) (i : Fin n) :
    CanYield (fun σ => positionBelow size n (draw σ)) i := by
  obtain ⟨first, inside, stands⟩ := exists_position i.isLt hn
  have value : (⟨position size n first 0, position_lt i.pos inside⟩ : Fin n) = i := Fin.ext stands
  have drawn : CanYield (fun σ => positionBelow size n (draw σ))
      ⟨position size n first 0, position_lt i.pos inside⟩ := by
    simp only [positionBelow, dif_pos i.pos]
    refine canYield_bind (all ⟨first, inside⟩) ?_
    split
    · exact canYield_bind (all ⟨0, by omega⟩) (canYield_pure _)
    · exact canYield_pure _
  rwa [value] at drawn

theorem canYield_bounded (v : { v : ℕ // v < UInt32.size }) : CanYield (fun _ => bounded) v := by
  have value : (⟨(UInt32.ofNat v).toNat, (UInt32.ofNat v).toNat_lt⟩ :
      { v : ℕ // v < UInt32.size }) = v := Subtype.ext (UInt32.toNat_ofNat_of_lt v.2)
  rw [← value]
  exact canYield_bind (canYield_word _) (canYield_pure _)

/-- Each of fewer than `2 ^ 32` positions can be drawn. -/
theorem canYield_below {n : ℕ} (hn : n < UInt32.size) (i : Fin n) :
    CanYield (fun _ => below n) i := by
  simp only [below, if_pos hn]
  exact canYield_positionBelow canYield_bounded hn.le i

end Draw
end SymbolicRegression
