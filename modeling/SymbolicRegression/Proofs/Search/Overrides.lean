import SymbolicRegression.Proofs.Mutation.Overrides
import SymbolicRegression.Search.Json

/-!
# Configurations that differ from the standard one

A document overrides what it names of a configuration, and of the parameters of mutation in it. It
may leave out anything, but it names nothing twice and nothing else, or it is refused. A
configuration that passes its checks names all of itself, and is read back as it was.
-/
namespace SymbolicRegression.Search.Config

open Json Reader Written Mutation

/-- A field of a configuration. -/
inductive Field where
  | reportInterval
  | mutation
deriving DecidableEq

namespace Field

def all : List Field := [reportInterval, mutation]

theorem mem_all (i : Field) : i ∈ all := by
  cases i <;> decide

theorem nodup_all : all.Nodup := by decide

end Field

def fields : Fields Field Parts where
  name
    | .reportInterval => "report_interval"
    | .mutation => "mutation"
  Value
    | .reportInterval => UInt64
    | .mutation => Parameters
  get p
    | .reportInterval => p.reportInterval
    | .mutation => p.mutation
  put p
    | .reportInterval => fun n => { p with reportInterval := some n }
    | .mutation => fun m => { p with mutation := some m }
  name_injective i j h := by
    cases i <;> cases j <;> first | rfl | exact absurd h (by decide)
  get_put_self acc i a := by cases i <;> rfl
  get_put_of_ne acc i a j h := by
    cases i <;> cases j <;> first | rfl | exact absurd rfl h
  ext acc acc' h := by
    cases acc
    cases acc'
    cases h .reportInterval
    cases h .mutation
    rfl

theorem get_empty (i : Field) : fields.get form.empty i = none := by
  cases i <;> rfl

/-- How a field is read straight from a text. -/
def Field.read (depth : ℕ) : (i : Field) → Reader (fields.Value i)
  | reportInterval => Reader.word64 "u64"
  | mutation => Parameters.reader depth

/-- What a document is as a field. -/
def Field.ofWritten (depth : ℕ) : (i : Field) → Held Written (fields.Value i)
  | reportInterval => Written.held 0 (Value.asWord "u64")
  | mutation => Parameters.ofWritten depth

theorem slots_eq (depth : ℕ) : slots depth = fields.slots Field.all (Field.read depth) := rfl

/-- The configuration that the tree of a document is. -/
def ofWritten : ℕ → Held Written Config :=
  form.ofWritten fun depth => fields.slots Field.all (Field.ofWritten depth)

theorem areReadBy_ofWritten (depth : ℕ) :
    fields.AreReadBy (fields.slots Field.all (Field.ofWritten depth)) (Field.ofWritten depth) :=
  fields.areReadBy_slots Field.mem_all (Field.ofWritten depth)

theorem pairs_reads (depth : ℕ) :
    List.Forall₂ (Slot.Pairs (Reads [])) (slots depth)
      (fields.slots Field.all (Field.ofWritten depth)) := by
  rw [slots_eq]
  refine fields.pairs_slots Field.all fun i g => ?_
  cases i with
  | reportInterval => exact (reads_word64 0 "u64").map g
  | mutation => exact (Parameters.reads_reader depth).map g

theorem pairs_succeeds (depth : ℕ) :
    List.Forall₂ (Slot.Pairs Succeeds) (slots (depth + 1))
      (fields.slots Field.all (Field.ofWritten (depth + 1))) := by
  rw [slots_eq]
  refine fields.pairs_slots Field.all fun i g => ?_
  cases i with
  | reportInterval => exact (succeeds_word64 "u64").map g
  | mutation => exact (Parameters.succeeds_reader depth).map g

theorem areHeld_ofWritten (depth : ℕ) : AreHeld depth (ofWritten depth) := by
  refine Json.areHeld_ofWritten rfl (fun depth => fields.areHeld_slots Field.all fun i => ?_) depth
  cases i with
  | reportInterval => exact areHeld_held depth _
  | mutation => exact Parameters.areHeld_ofWritten depth

/-- A configuration is read of exactly those texts whose trees are one. -/
theorem read_eq_ok_iff {text : String} {c : Config} :
    read text = .ok c ↔ ∃ w : Written, w.IsSpelled text ∧ ofWritten depthLimit w = .ok c :=
  -- two brackets may be open at once: around the fields, and around the parameters
  run_iff (reads_record pairs_reads depthLimit) (succeeds_record (pairs_succeeds 125))

/-- Whether a document is an object that names fields of a configuration, each at most once: how
often to report, and the parameters that are named in turn. -/
def IsGiven (w : Written) (interval : Option UInt64)
    (mutation : Option ((k : Parameter) → Option k.Amount)) : Prop :=
  ∃ members, w.IsObject members ∧
    (∀ member ∈ members, member.1 = "report_interval" ∨ member.1 = "mutation") ∧
    List.Forall₂ IsWord (under members "report_interval") interval.toList ∧
    List.Forall₂ Parameters.AreGiven (under members "mutation") mutation.toList

/-- The configuration that is read if these fields are named. -/
def overriding (interval : Option UInt64)
    (mutation : Option ((k : Parameter) → Option k.Amount)) : Config :=
  ofParts ⟨interval, mutation.map fun named => Parameters.ofParts (Parameters.partsOf named)⟩

/-- What is not named is as in the standard configuration. -/
theorem amount_overriding (interval : Option UInt64)
    (mutation : Option ((k : Parameter) → Option k.Amount)) (k : Parameter) :
    (overriding interval mutation).mutation.amount k =
      (mutation.bind fun named => named k).getD (standard.mutation.amount k) := by
  cases mutation with
  | none => rfl
  | some named =>
    refine (Parameters.amount_ofParts _ k).trans ?_
    rw [Parameters.get_partsOf]
    rfl

theorem ofWritten_of_isGiven {w : Written} {interval : Option UInt64}
    {mutation : Option ((k : Parameter) → Option k.Amount)} (h : IsGiven w interval mutation)
    (depth : ℕ) : ofWritten (depth + 2) w = .ok (overriding interval mutation) := by
  obtain ⟨members, ⟨ms, rfl, named⟩, known, intervals, mutations⟩ := h
  refine (ofWritten_object_iff (areReadBy_ofWritten (depth + 1)) rfl get_empty).mpr
    ⟨members, _, named, ⟨fun member mem => ?_, fun i => ?_⟩, rfl⟩
  · rcases known member mem with same | same
    · exact ⟨.reportInterval, same⟩
    · exact ⟨.mutation, same⟩
  · cases i with
    | reportInterval => exact intervals.imp fun _ _ is => held_word_iff.mpr is
    | mutation =>
      have made : List.Forall₂ (fun u p => Parameters.ofWritten (depth + 1) u = .ok p)
          (under members "mutation")
          (mutation.map fun named => Parameters.ofParts (Parameters.partsOf named)).toList := by
        rw [Option.toList_map, List.forall₂_map_right_iff]
        exact mutations.imp fun _ _ given => Parameters.ofWritten_of_areGiven given depth
      exact made

/-- A configuration is read only of documents that name nothing twice, and nothing else. -/
theorem namesOnce_of_read {text : String} {c : Config} (h : read text = .ok c) {w : Written}
    (spelled : w.IsSpelled text) {members : List (String × Written)} (object : w.IsObject members) :
    fields.NamesOnce (members.map Prod.fst) ∧
      ∀ u inner, ("mutation", u) ∈ members → u.IsObject inner →
        Parameters.fields.NamesOnce (inner.map Prod.fst) := by
  obtain ⟨w', spelled', made⟩ := read_eq_ok_iff.mp h
  obtain ⟨v, held'⟩ := areHeld_ofWritten depthLimit w' c made
  -- both documents are the same text, so they hold the same value
  have held : w.value depthLimit = .ok v := by
    rw [← read_of_isSpelled spelled, read_of_isSpelled spelled', held']
  obtain ⟨vs, rfl, inside⟩ := object.exists_of_value held
  obtain ⟨members', acc, inside', gives⟩ :=
    exists_gives_of_made (areReadBy_ofWritten 126) rfl get_empty made held'
  refine ⟨?_, fun u inner mem innerObject => ?_⟩
  · rw [inside.names, ← inside'.names]
    exact gives.namesOnce
  · -- what the members hold goes through the values of both documents
    obtain ⟨v, listed, held⟩ := exists_mem_of_forall₂ (inside.under "mutation") (mem_under.mpr mem)
    obtain ⟨u', listed', held'⟩ := exists_mem_of_forall₂ (inside'.under "mutation").flip listed
    obtain ⟨p, -, made⟩ := exists_mem_of_forall₂ (gives.2 .mutation) listed'
    obtain ⟨inner', rfl, inside⟩ := innerObject.exists_of_value held
    rw [inside.names]
    exact Parameters.namesOnce_of_made made held'

theorem isSensible_of_validate {c : Config} (h : c.validate = .ok ()) : c.mutation.IsSensible := by
  unfold validate at h
  split at h
  · cases h
  · cases passed : c.mutation.validate with
    | ok u => exact Parameters.isSensible_of_validate passed
    | error e =>
      rw [passed] at h
      cases h

def Field.toValue (c : Config) : Field → Value
  | reportInterval => .ofWord c.reportInterval
  | mutation => c.mutation.toValue

def get (c : Config) : (i : Field) → fields.Value i
  | .reportInterval => c.reportInterval
  | .mutation => c.mutation

theorem toValue_eq (c : Config) :
    c.toValue = .object (Field.all.map fun i => (fields.name i, i.toValue c)) := rfl

theorem isPrinted_toValue (c : Config) : c.toValue.IsPrinted :=
  ⟨trivial, c.mutation.isPrinted_toValue, trivial⟩

theorem nesting_toValue (c : Config) : c.toValue.nesting = 2 := by
  simp [toValue, Value.nesting, Value.nestingMembers, Value.ofWord, c.mutation.nesting_toValue]

/-- What is written of a configuration that passes its checks is read back as it was. -/
theorem read_toValue {c : Config} (h : c.validate = .ok ()) :
    read c.toValue.compact = .ok c := by
  have finite := (isSensible_of_validate h).isFinite
  obtain ⟨w, spelled, held⟩ := exists_spelled_render isBlank_compact c.isPrinted_toValue
  rw [c.nesting_toValue] at held
  have room : w.nesting ≤ depthLimit := (needs_value w _ _ held).1.trans (by decide)
  have held := (needs_value w _ _ held).2 depthLimit room
  rw [toValue_eq] at held
  have is (i : Field) (u : Written) (held : u.value 126 = .ok (i.toValue c)) :
      i.ofWritten 126 u = .ok (c.get i) := by
    cases i with
    | reportInterval => exact held_word_iff.mpr (isWord_of_value held)
    | mutation => exact Parameters.ofWritten_of_value finite held
  have given : ∃ members, w.IsObject members ∧
      fields.Gives (fun i u a => i.ofWritten 126 u = .ok a) members fun i => some (c.get i) :=
    fields.exists_gives_of_value Field.nodup_all Field.mem_all is held
  obtain ⟨members, ⟨ms, rfl, named⟩, gives⟩ := given
  have parts : fields.get ⟨some c.reportInterval, some c.mutation⟩ = fun i => some (c.get i) :=
    funext fun i => by cases i <;> rfl
  refine read_eq_ok_iff.mpr ⟨_, spelled, ?_⟩
  exact (ofWritten_object_iff (areReadBy_ofWritten 126) rfl get_empty).mpr
    ⟨members, ⟨some c.reportInterval, some c.mutation⟩, named, parts ▸ gives, rfl⟩

/-- A document overrides exactly what it names of a configuration: whatever it names, in any order,
is read in place of the standard amounts. If it names something twice, or anything else, here or
among the parameters, it is refused. And every configuration that passes its checks is read back
from what is written of it. -/
theorem read_overrides :
    (∀ (w : Written) text interval mutation, w.IsSpelled text → IsGiven w interval mutation →
      ∃ c, read text = .ok c ∧
        c.reportInterval = interval.getD standard.reportInterval ∧
        ∀ k, c.mutation.amount k =
          (mutation.bind fun named => named k).getD (standard.mutation.amount k)) ∧
    (∀ (w : Written) text members, w.IsSpelled text → w.IsObject members →
      (¬fields.NamesOnce (members.map Prod.fst) ∨
        ∃ u inner, ("mutation", u) ∈ members ∧ u.IsObject inner ∧
          ¬Parameters.fields.NamesOnce (inner.map Prod.fst)) →
      ∃ fault, read text = .error fault) ∧
    ∀ c : Config, c.validate = .ok () → read c.toValue.compact = .ok c := by
  refine ⟨fun w text interval mutation spelled given => ?_, ?_, fun c => read_toValue⟩
  · exact ⟨overriding interval mutation,
      read_eq_ok_iff.mpr ⟨w, spelled, ofWritten_of_isGiven given 125⟩, rfl,
      amount_overriding interval mutation⟩
  · intro w text members spelled object bad
    cases made : read text with
    | error fault => exact ⟨fault, rfl⟩
    | ok c =>
      obtain ⟨once, inside⟩ := namesOnce_of_read made spelled object
      rcases bad with twice | ⟨u, inner, mem, innerObject, twice⟩
      · exact absurd once twice
      · exact absurd (inside u inner mem innerObject) twice

/-- A configuration that overrides the depth of fresh trees and how often to report. -/
def deeper : String :=
  "\x7b\"mutation\": \x7b\"max_generate_depth\": 3\x7d, \"report_interval\": 5\x7d"

/-- What it names of the parameters. -/
def deeperAmounts : (k : Parameter) → Option k.Amount
  | .maxDepth => some (3 : UInt64)
  | _ => none

/-- A configuration whose parameters name one twice. -/
def repeating : String :=
  "\x7b\"mutation\": \x7b\"p_add\": 1, \"p_add\": 1\x7d\x7d"

theorem read_overrides_samples :
    (∃ c, read deeper = .ok c ∧ c.reportInterval = 5 ∧ c.mutation.maxDepth = 3 ∧
      c.mutation.wrap = 0.02) ∧
    (∃ fault, read repeating = .error fault) ∧
    standard.validate = .ok () ∧ read standard.toValue.compact = .ok standard := by
  obtain ⟨overrides, refuses, back⟩ := read_overrides
  have valid : standard.validate = .ok () := by decide
  refine ⟨?_, ?_, valid, back standard valid⟩
  · have held : Value.read deeper = .ok (.object
        [("mutation", .object [("max_generate_depth", .ofWord 3)]),
          ("report_interval", .ofWord 5)]) := by cbv
    obtain ⟨w, spelled, held⟩ := exists_of_read held
    obtain ⟨_, ws, -, object, _ | ⟨mutation, _ | ⟨interval, ⟨⟩⟩⟩⟩ := exists_object_of_value held
    obtain ⟨_, us, -, inner, _ | ⟨depth, ⟨⟩⟩⟩ := exists_object_of_value mutation
    have given : IsGiven w (some 5) (some deeperAmounts) := by
      refine ⟨_, object, by simp, .cons (isWord_of_value interval) .nil,
        .cons ⟨_, inner, by simpa using ⟨.maxDepth, rfl⟩, fun k => ?_⟩ .nil⟩
      cases k
      case maxDepth => exact .cons (isWord_of_value depth) .nil
      all_goals exact .nil
    obtain ⟨c, made, often, amounts⟩ := overrides w deeper _ _ spelled given
    exact ⟨c, made, often, amounts .maxDepth, amounts .wrap⟩
  · have held : Value.read repeating = .ok (.object
        [("mutation", .object [("p_add", .ofWord 1), ("p_add", .ofWord 1)])]) := by cbv
    obtain ⟨w, spelled, held⟩ := exists_of_read held
    obtain ⟨_, ws, -, object, _ | ⟨mutation, ⟨⟩⟩⟩ := exists_object_of_value held
    obtain ⟨_, us, -, inner, _ | ⟨first, _ | ⟨second, ⟨⟩⟩⟩⟩ := exists_object_of_value mutation
    have twice : ¬Parameters.fields.NamesOnce ["p_add", "p_add"] := fun once =>
      absurd once.1 (by decide)
    exact refuses w _ _ spelled object (.inr ⟨_, _, List.mem_singleton_self _, inner, twice⟩)

end SymbolicRegression.Search.Config
