import SymbolicRegression.Proofs.Json.Gathering
import SymbolicRegression.Proofs.Record.Trees

/-!
# How deep a document is

A document that holds a value does so wherever there is room for its brackets, and nowhere else. The
members and items that it is put together from hold values in the same way, each for itself.
-/
namespace SymbolicRegression.Json

namespace Written

mutual

/-- How many lists and objects are open inside one another at most. -/
def nesting : Written → ℕ
  | list items => nestingItems items + 1
  | object members => nestingMembers members + 1
  | _ => 0

def nestingItems : List Written → ℕ
  | [] => 0
  | item :: items => max (nesting item) (nestingItems items)

def nestingMembers : List (WrittenText × Written) → ℕ
  | [] => 0
  | (_, value) :: members => max (nesting value) (nestingMembers members)

end

/-- Whether a document holds a value where there is room for it: its numbers are in range and its
texts stand for something. -/
def IsAccepted (w : Written) : Prop := ∃ depth v, w.value depth = .ok v

/-- Whether a result depends on the depth only as far as there has to be room for a nesting. -/
def Needs {α : Type} (nesting : ℕ) (result : ℕ → Except Fault α) : Prop :=
  ∀ depth a, result depth = .ok a →
    nesting ≤ depth ∧ ∀ depth', nesting ≤ depth' → result depth' = .ok a

section Needs

variable {α β : Type} {n k : ℕ}

theorem needs_const (result : Except Fault α) : Needs 0 fun _ => result :=
  fun _ _ h => ⟨Nat.zero_le _, fun _ _ => h⟩

theorem Needs.bind {first : ℕ → Except Fault α} {second : α → ℕ → Except Fault β}
    (hfirst : Needs n first) (hsecond : ∀ a, Needs k (second a)) :
    Needs (max n k) fun depth => first depth >>= fun a => second a depth := by
  intro depth b h
  obtain ⟨a, made, h⟩ := ok_of_bind h
  obtain ⟨room, always⟩ := hfirst depth a made
  obtain ⟨room', always'⟩ := hsecond a depth b h
  refine ⟨max_le room room', fun depth' enough => ?_⟩
  change first depth' >>= _ = _
  rw [always depth' (le_of_max_le_left enough)]
  exact always' depth' (le_of_max_le_right enough)

theorem Needs.map {first : ℕ → Except Fault α} (h : Needs n first) (g : α → β) :
    Needs n fun depth => g <$> first depth := by
  intro depth b made
  obtain ⟨a, held, rfl⟩ := ok_of_map made
  obtain ⟨room, always⟩ := h depth a held
  refine ⟨room, fun depth' enough => ?_⟩
  change g <$> first depth' = _
  rw [always depth' enough]
  rfl

end Needs

theorem needs_values {ws : List Written}
    (h : ∀ w ∈ ws, Needs w.nesting fun depth => w.value depth) :
    Needs (nestingItems ws) fun depth => values depth ws := by
  induction ws with
  | nil => exact needs_const (.ok [])
  | cons w ws ih =>
    obtain ⟨head, tail⟩ := List.forall_mem_cons.mp h
    exact head.bind fun v => (ih tail).map (v :: ·)

theorem needs_memberValues {ms : List (WrittenText × Written)}
    (h : ∀ m ∈ ms, Needs m.2.nesting fun depth => m.2.value depth) :
    Needs (nestingMembers ms) fun depth => memberValues depth ms := by
  induction ms with
  | nil => exact needs_const (.ok [])
  | cons m ms ih =>
    obtain ⟨t, w⟩ := m
    obtain ⟨head, tail⟩ := List.forall_mem_cons.mp h
    rw [nestingMembers, ← Nat.zero_max (max _ _)]
    exact (needs_const t.text).bind fun s => head.bind fun v => (ih tail).map ((s, v) :: ·)

/-- A document holds its value exactly where there is room for its nesting. -/
theorem needs_value (w : Written) : Needs w.nesting fun depth => w.value depth := by
  induction w using Written.induct with
  | null => exact needs_const _
  | boolean b => exact needs_const _
  | numeral n => exact needs_const _
  | quoted t => exact needs_const _
  | list items ih =>
    intro depth v h
    cases depth with
    | zero => cases h
    | succ depth =>
      obtain ⟨room, always⟩ := ((needs_values ih).map Value.list) depth v h
      refine ⟨Nat.succ_le_succ room, fun depth' enough => ?_⟩
      obtain ⟨depth', rfl⟩ := Nat.exists_eq_add_of_le' enough
      exact always _ (Nat.le_add_left _ _)
  | object members ih =>
    intro depth v h
    cases depth with
    | zero => cases h
    | succ depth =>
      obtain ⟨room, always⟩ := ((needs_memberValues ih).map Value.object) depth v h
      refine ⟨Nat.succ_le_succ room, fun depth' enough => ?_⟩
      obtain ⟨depth', rfl⟩ := Nat.exists_eq_add_of_le' enough
      exact always _ (Nat.le_add_left _ _)

theorem IsAccepted.exists_value {w : Written} (h : w.IsAccepted) {depth : ℕ}
    (room : w.nesting ≤ depth) : ∃ v, w.value depth = .ok v := by
  obtain ⟨depth', v, held⟩ := h
  exact ⟨v, (needs_value w depth' v held).2 depth room⟩

/-- What is written of a value is a document that holds it wherever there is room for it. -/
theorem exists_spelled_render {sp : Spacing} (hsp : sp.IsBlank) {v : Value} (h : v.IsPrinted) :
    ∃ w : Written, w.IsSpelled (v.render sp) ∧ w.value v.nesting = .ok v := by
  have read : Reader.value v.nesting (v.render sp).toList = .ok (v, []) := by
    rw [Value.read_render hsp h, Value.within, if_pos le_rfl]
  exact (Reader.reads_value v.nesting).exists_of_run (run_of_ok read Reader.blank_nil)

/-- A list of accepted items is accepted. -/
theorem isAccepted_list {ws : List Written} (h : ∀ w ∈ ws, w.IsAccepted) :
    (list ws).IsAccepted := by
  have held : ∃ vs, values (nestingItems ws) ws = .ok vs := by
    generalize room : nestingItems ws = depth
    replace room := room.le
    induction ws with
    | nil => exact ⟨[], rfl⟩
    | cons w ws ih =>
      obtain ⟨head, tail⟩ := List.forall_mem_cons.mp h
      obtain ⟨v, first⟩ := head.exists_value (le_of_max_le_left room)
      obtain ⟨vs, others⟩ := ih tail (le_of_max_le_right room)
      exact ⟨v :: vs, by rw [values, first, others]; rfl⟩
  obtain ⟨vs, held⟩ := held
  exact ⟨nestingItems ws + 1, .list vs, by rw [value, held]; rfl⟩

/-- An object is accepted if its names stand for something and its values are accepted. -/
theorem isAccepted_object {ms : List (WrittenText × Written)} {members : List (String × Written)}
    (named : AreNamed ms members) (h : ∀ member ∈ members, member.2.IsAccepted) :
    (object ms).IsAccepted := by
  have held : ∃ vs, memberValues (nestingMembers ms) ms = .ok vs := by
    generalize room : nestingMembers ms = depth
    replace room := room.le
    induction named with
    | nil => exact ⟨[], rfl⟩
    | @cons m member ms members this named ih =>
      obtain ⟨t, w⟩ := m
      obtain ⟨text, rfl⟩ := this
      obtain ⟨head, tail⟩ := List.forall_mem_cons.mp h
      obtain ⟨v, first⟩ := head.exists_value (le_of_max_le_left room)
      obtain ⟨vs, others⟩ := ih tail (le_of_max_le_right room)
      exact ⟨(member.1, v) :: vs, by rw [memberValues, text, first, others]; rfl⟩
  obtain ⟨vs, held⟩ := held
  exact ⟨nestingMembers ms + 1, .object vs, by rw [value, held]; rfl⟩

theorem exists_of_values_cons {depth : ℕ} {w : Written} {ws : List Written} {vs : List Value}
    (h : values depth (w :: ws) = .ok vs) :
    ∃ v us, w.value depth = .ok v ∧ values depth ws = .ok us ∧ vs = v :: us := by
  obtain ⟨v, first, h⟩ := ok_of_bind h
  obtain ⟨us, others, h⟩ := ok_of_bind h
  cases h
  exact ⟨v, us, first, others, rfl⟩

/-- Whether members hold values, each under its name. -/
def MembersHold (depth : ℕ) : List (String × Written) → List (String × Value) → Prop :=
  List.Forall₂ fun member v => member.1 = v.1 ∧ member.2.value depth = .ok v.2

section MembersHold

variable {depth : ℕ} {members : List (String × Written)} {vs : List (String × Value)}

theorem membersHold_of_memberValues {ms : List (WrittenText × Written)}
    (named : AreNamed ms members) (h : memberValues depth ms = .ok vs) :
    MembersHold depth members vs := by
  induction named generalizing vs with
  | nil =>
    cases h
    exact .nil
  | @cons m member ms members this named ih =>
    obtain ⟨t, w⟩ := m
    obtain ⟨text, rfl⟩ := this
    obtain ⟨name, text', h⟩ := ok_of_bind h
    cases text.symm.trans text'
    obtain ⟨v, held, h⟩ := ok_of_bind h
    obtain ⟨vs, others, h⟩ := ok_of_bind h
    cases h
    exact .cons ⟨rfl, held⟩ (ih others)

theorem MembersHold.names (h : MembersHold depth members vs) :
    members.map Prod.fst = vs.map Prod.fst := by
  rw [← List.forall₂_eq_eq_eq, List.forall₂_map_left_iff, List.forall₂_map_right_iff]
  exact h.imp fun _ _ this => this.1

theorem MembersHold.values (h : MembersHold depth members vs) :
    List.Forall₂ (fun u v => u.value depth = .ok v) (members.map Prod.snd) (vs.map Prod.snd) := by
  rw [List.forall₂_map_left_iff, List.forall₂_map_right_iff]
  exact h.imp fun _ _ this => this.2

theorem MembersHold.under (h : MembersHold depth members vs) (name : String) :
    List.Forall₂ (fun u v => u.value depth = .ok v) (under members name) (under vs name) :=
  forall₂_under (R := fun (u : Written) v => u.value depth = .ok v) h name

/-- A member that is listed once holds a value that is listed once. -/
theorem MembersHold.exists_value (h : MembersHold depth members vs) {name : String} {w : Written}
    (once : Json.under members name = [w]) :
    ∃ v, w.value depth = .ok v ∧ Json.under vs name = [v] := by
  have held := h.under name
  rw [once] at held
  generalize Json.under vs name = found at held
  obtain _ | ⟨held, ⟨⟩⟩ := held
  exact ⟨_, held, rfl⟩

end MembersHold

/-- A document that holds an object is one, and holds its members by their names. -/
theorem exists_object_of_value {w : Written} {depth : ℕ} {vs : List (String × Value)}
    (h : w.value depth = .ok (.object vs)) :
    ∃ depth' ws, depth = depth' + 1 ∧ w.IsObject ((vs.map Prod.fst).zip ws) ∧
      List.Forall₂ (fun u v => u.value depth' = .ok v) ws (vs.map Prod.snd) := by
  obtain ⟨ms, _, rfl, holds⟩ := isLike_of_value h
  obtain ⟨members, named, -⟩ := exists_members_of_values holds
  cases depth with
  | zero => cases h
  | succ depth =>
    obtain ⟨vs', holds, same⟩ := ok_of_map h
    cases same
    have held := membersHold_of_memberValues named holds
    have zipped : (vs.map Prod.fst).zip (members.map Prod.snd) = members := by
      rw [← held.names, ← List.unzip_fst, ← List.unzip_snd, List.zip_unzip]
    exact ⟨depth, members.map Prod.snd, rfl, ⟨ms, rfl, zipped.symm ▸ named⟩, held.values⟩

/-- An object holds its members by their names. -/
theorem IsObject.exists_of_value {w : Written} {members : List (String × Written)}
    (object : w.IsObject members) {depth : ℕ} {v : Value} (held : w.value (depth + 1) = .ok v) :
    ∃ vs, v = .object vs ∧ MembersHold depth members vs := by
  obtain ⟨ms, rfl, named⟩ := object
  obtain ⟨vs, holds, rfl⟩ := ok_of_map held
  exact ⟨vs, rfl, membersHold_of_memberValues named holds⟩

end Written
end SymbolicRegression.Json
