import SymbolicRegression.Proofs.Expr.Trees
import SymbolicRegression.Proofs.Json.Gathering
import SymbolicRegression.Proofs.Json.Nesting

/-!
# Layouts of an expression

A document may list the members of a node in any order, with others among them that belong to no
field, or give the node as a list. Whichever layout each node of an expression has, the document is
read as that expression, as long as there is room for its brackets. The root is read straight and
everything below it from memory; both put a node together from its fields alone.
-/
namespace SymbolicRegression

open Json Reader Written

namespace Json.Written

/-- Whether a document has the given fields: as an object with these members and others, in any
order, or as a list. -/
def HasFields (w : Written) (fields : List (String × Written)) : Prop :=
  (∃ members others, w.IsObject members ∧ members.Perm (fields ++ others) ∧
    ∀ other ∈ others, other.1 ∉ fields.map Prod.fst ∧ other.2.IsAccepted) ∨
  w = .list (fields.map Prod.snd)

theorem HasFields.isAccepted {w : Written} {fields : List (String × Written)}
    (h : w.HasFields fields) (accepted : ∀ field ∈ fields, field.2.IsAccepted) : w.IsAccepted := by
  rcases h with ⟨members, others, ⟨ms, rfl, named⟩, perm, apart⟩ | rfl
  · refine isAccepted_object named fun member mem => ?_
    rcases List.mem_append.mp (perm.mem_iff.mp mem) with field | other
    · exact accepted member field
    · exact (apart member other).2
  · exact isAccepted_list (List.forall_mem_map.mpr accepted)

theorem IsObject.hasFields {w : Written} {fields : List (String × Written)}
    (h : w.IsObject fields) : w.HasFields fields :=
  .inl ⟨fields, [], h, by rw [List.append_nil], by simp⟩

theorem IsText.isAccepted {w : Written} {s : String} (h : w.IsText s) : w.IsAccepted := by
  obtain ⟨t, rfl, text⟩ := h
  exact ⟨0, .text s, by rw [value, text]; rfl⟩

theorem IsFloat.isAccepted {w : Written} {x : Float} (h : w.IsFloat x) : w.IsAccepted := by
  obtain ⟨n, number, rfl, denotes, -⟩ := h
  exact ⟨0, .number number, by rw [value, denotes]; rfl⟩

/-- What a text holds at any depth. -/
theorem IsText.value_eq {w : Written} {s : String} (h : w.IsText s) {depth : ℕ} {v : Value}
    (held : w.value depth = .ok v) : v = .text s := by
  obtain ⟨t, rfl, text⟩ := h
  rw [value, text] at held
  cases held
  rfl

/-- What a number holds at any depth. -/
theorem IsFloat.asFloat_eq {w : Written} {x : Float} (h : w.IsFloat x) {depth : ℕ} {v : Value}
    (held : w.value depth = .ok v) : v.asFloat = .ok x := by
  obtain ⟨n, number, rfl, denotes, rfl⟩ := h
  rw [value, denotes] at held
  cases held
  rfl

end Json.Written

namespace Expr

namespace Kind

def fields : Kind → List String
  | literal => ["value"]
  | input => ["name"]
  | binary => ["op", "left", "right"]

/-- No field is named like another one or like the type. -/
theorem nodup_fields (kind : Kind) : ("type" :: kind.fields).Nodup := by
  cases kind <;> decide

theorem ofName_name (kind : Kind) : ofName kind.name = .ok kind := by
  cases kind <;> rfl

end Kind

/-- A field of a binary node. -/
inductive Operand where
  | op
  | left
  | right

def operandFields : Fields Operand Operands where
  name
    | .op => "op"
    | .left => "left"
    | .right => "right"
  Value
    | .op => Operator
    | .left => Expr
    | .right => Expr
  get acc
    | .op => acc.op
    | .left => acc.left
    | .right => acc.right
  put acc
    | .op => fun op => { acc with op := some op }
    | .left => fun e => { acc with left := some e }
    | .right => fun e => { acc with right := some e }
  name_injective i j h := by
    cases i <;> cases j <;> first | rfl | exact absurd h (by decide)
  get_put_self acc i a := by cases i <;> rfl
  get_put_of_ne acc i a j h := by
    cases i <;> cases j <;> first | rfl | exact absurd rfl h
  ext acc acc' h := by
    cases acc
    cases acc'
    cases h .op
    cases h .left
    cases h .right
    rfl

/-- How the fields of a binary node are made of what is held in memory. -/
def operandOf : (i : Operand) → Held Part (operandFields.Value i)
  | .op => fun p => Operator.ofValue p.value
  | .left => Part.expr
  | .right => Part.expr

theorem binarySlots_areReadBy : operandFields.AreReadBy binarySlots operandOf := by
  have complete : ∀ i : Operand, i ∈ [.op, .left, .right] := by
    intro i
    cases i <;> simp
  exact operandFields.areReadBy_slots complete operandOf

theorem literalSlots_areReadBy :
    (Fields.single "value" Float).AreReadBy literalSlots fun _ (p : Part) => p.value.asFloat :=
  Fields.areReadBy_single "value" fun p : Part => p.value.asFloat

theorem inputSlots_areReadBy :
    (Fields.single "name" String).AreReadBy inputSlots
      fun _ (p : Part) => p.value.asText "a string" :=
  Fields.areReadBy_single "name" fun p : Part => p.value.asText "a string"

/-- A node is put together from members as from a list of its fields. -/
theorem assemble_of_list {kind : Kind} {members : List (String × Part)} {items : List Part}
    {e : Expr}
    (listed : List.Forall₂ (fun name item => under members name = [item]) kind.fields items)
    (h : assembleList items kind = .ok e) : assemble members kind = .ok e := by
  cases kind with
  | literal =>
    obtain _ | ⟨here, ⟨⟩⟩ := listed
    obtain ⟨acc, first, made⟩ := ok_of_bind h
    obtain ⟨x, number, rfl⟩ := ok_of_map first
    have gathered : Form.gather .skip literalSlots none members = .ok (some x) := by
      refine literalSlots_areReadBy.gather_iff.mpr ⟨nofun, fun _ => ?_⟩
      change Fills _ (under members "value") none (some x)
      rw [here]
      exact .filled number
    change Form.gather .skip literalSlots none members >>= _ = _
    rw [gathered]
    exact made
  | input =>
    obtain _ | ⟨here, ⟨⟩⟩ := listed
    obtain ⟨acc, first, made⟩ := ok_of_bind h
    obtain ⟨s, text, rfl⟩ := ok_of_map first
    have gathered : Form.gather .skip inputSlots none members = .ok (some s) := by
      refine inputSlots_areReadBy.gather_iff.mpr ⟨nofun, fun _ => ?_⟩
      change Fills _ (under members "name") none (some s)
      rw [here]
      exact .filled text
    change Form.gather .skip inputSlots none members >>= _ = _
    rw [gathered]
    exact made
  | binary =>
    obtain _ | ⟨here, _ | ⟨here', _ | ⟨here'', ⟨⟩⟩⟩⟩ := listed
    obtain ⟨acc, first, h⟩ := ok_of_bind h
    obtain ⟨op, applies, rfl⟩ := ok_of_map first
    obtain ⟨acc, second, h⟩ := ok_of_bind h
    obtain ⟨left, made, rfl⟩ := ok_of_map second
    obtain ⟨acc, third, h⟩ := ok_of_bind h
    obtain ⟨right, made', rfl⟩ := ok_of_map third
    have gathered : Form.gather .skip binarySlots ⟨none, none, none⟩ members =
        .ok ⟨some op, some left, some right⟩ := by
      refine binarySlots_areReadBy.gather_iff.mpr ⟨nofun, fun i => ?_⟩
      cases i with
      | op =>
        change Fills _ (under members "op") none (some op)
        rw [here]
        exact .filled applies
      | left =>
        change Fills _ (under members "left") none (some left)
        rw [here']
        exact .filled made
      | right =>
        change Fills _ (under members "right") none (some right)
        rw [here'']
        exact .filled made'
    change Form.gather .skip binarySlots ⟨none, none, none⟩ members >>= _ = _
    rw [gathered]
    exact h

/-- The form of a node and its other members are told apart wherever the type stands. -/
theorem separate_of_fills {members : List (String × Part)} {kind kind' : Option Kind}
    (h : Fills (fun part : Part => Kind.ofValue part.value) (under members "type") kind kind')
    (others : List (String × Part)) :
    separate (kind, others) members =
      .ok (kind', (members.filter fun member => member.1 ≠ "type").reverse ++ others) := by
  induction members generalizing kind others with
  | nil =>
    cases h
    rfl
  | cons member members ih =>
    obtain ⟨name, part⟩ := member
    by_cases type : name = "type"
    · subst type
      rw [under_cons_self, fills_cons_iff] at h
      obtain ⟨rfl, none_, k, made, rfl⟩ := h
      rw [separate.eq_def, List.filter_cons_of_neg (by simp)]
      simp only [if_pos, made]
      exact ih (none_ ▸ .left _) others
    · rw [under_cons_of_ne type] at h
      rw [separate.eq_def, List.filter_cons_of_pos (by simpa using type), List.reverse_cons,
        List.append_assoc]
      simp only [if_neg type]
      exact ih h _

theorem itemParts_eq_map (vs : List Value) : itemParts vs = vs.map fun v => ⟨v, ofValue v⟩ := by
  induction vs with
  | nil => rfl
  | cons v vs ih => rw [itemParts, ih, List.map_cons]

theorem memberParts_filter (p : String → Bool) (vs : List (String × Value)) :
    memberParts (vs.filter fun v => p v.1) = (memberParts vs).filter fun part => p part.1 := by
  rw [memberParts_eq_map, memberParts_eq_map, List.filter_map]
  rfl

/-- The members of a node other than its type, in memory. -/
def otherMembers (vs : List (String × Value)) : List (String × Value) :=
  vs.filter fun v => v.1 ≠ "type"

/-- The fields of a node are among the members that are not its type. -/
theorem listed_otherMembers {kind : Kind} {vs : List (String × Value)} {us : List Value}
    (h : List.Forall₂ (fun name u => under vs name = [u]) kind.fields us) :
    List.Forall₂ (fun name item => under (memberParts (otherMembers vs)) name = [item])
      kind.fields (itemParts us) := by
  have apart : ∀ name ∈ kind.fields, name ≠ "type" := fun name mem same =>
    (List.nodup_cons.mp kind.nodup_fields).1 (same ▸ mem)
  rw [itemParts_eq_map, List.forall₂_map_right_iff]
  refine ((List.forall₂_and_left _ _).mpr ⟨apart, h⟩).imp ?_
  rintro name u ⟨ne, here⟩
  have kept (member : String × Value) (same : member.1 = name) :
      decide (member.1 ≠ "type") = true := decide_eq_true (same ▸ ne)
  rw [memberParts_eq_map, under_map fun v => (⟨v, ofValue v⟩ : Part), otherMembers,
    under_filter kept, here]
  rfl

/-- The form that a text names. -/
def kindOf (w : Written) : Except Fault Kind :=
  w.held 0 (Value.asText "variant identifier") >>= Kind.ofName

theorem kindOf_of_isText {w : Written} {kind : Kind} (h : w.IsText kind.name) :
    kindOf w = .ok kind := by
  rw [kindOf, held_text_iff.mpr h]
  exact Kind.ofName_name kind

theorem succeeds_kind : Succeeds Kind.read kindOf := succeeds_text.bind Kind.ofName

/-- What a node that is read straight gathers of its members, where only a text names the form. -/
def straightStep (depth : ℕ) (acc : Option Kind × List (String × Value)) (name : String)
    (w : Written) : Except Fault (Option Kind × List (String × Value)) :=
  if name = "type" then
    match acc.1 with
    | some _ => .error (.content (.duplicateField name))
    | none => (fun kind => (some kind, acc.2)) <$> kindOf w
  else (fun v => (acc.1, (name, v) :: acc.2)) <$> w.value depth

theorem goes_nodeMember (depth : ℕ) (acc : Option Kind × List (String × Value)) (name : String)
    (w : Written) :
    Goes (fun _ => False) [[':']] (nodeMember depth acc name) (straightStep depth acc name) w := by
  refine goes_of_ok fun acc' s rest made spelled delimited => ?_
  obtain ⟨mid, mark, spelled⟩ := spells_cons.mp spelled
  obtain ⟨kind, gathered⟩ := acc
  unfold straightStep at made
  unfold nodeMember
  split_ifs at made ⊢ with type
  · cases kind with
    | some kind => cases made
    | none =>
      obtain ⟨kind, named, rfl⟩ := ok_of_map made
      have read := succeeds_kind w mid rest spelled delimited
      rw [named] at read
      exact (bind_of_ok (colon_of_spells mark)).trans (bind_of_ok read)
  · obtain ⟨v, held, rfl⟩ := ok_of_map made
    have read := value_spelled w spelled delimited depth
    rw [held] at read
    exact (bind_of_ok (colon_of_spells mark)).trans (bind_of_ok read)

/-- What is gathered of a node that is read straight: its form, and its other members in memory. -/
theorem foldlM_straightStep {depth : ℕ} {ms : List (WrittenText × Written)}
    {members : List (String × Written)} {vs : List (String × Value)} (named : AreNamed ms members)
    (holds : memberValues depth ms = .ok vs) {kind kind' : Option Kind}
    (h : Fills kindOf (under members "type") kind kind') (gathered : List (String × Value)) :
    ms.foldlM (namedStep (straightStep depth)) (kind, gathered) =
      .ok (kind', (otherMembers vs).reverse ++ gathered) := by
  induction named generalizing vs kind gathered with
  | nil =>
    cases holds
    cases h
    rfl
  | @cons m member ms members this named ih =>
    obtain ⟨t, w⟩ := m
    obtain ⟨name, w'⟩ := member
    obtain ⟨text, rfl⟩ := this
    obtain ⟨name', text', holds⟩ := ok_of_bind holds
    cases text.symm.trans text'
    obtain ⟨v, held, holds⟩ := ok_of_bind holds
    obtain ⟨vs, rest, holds⟩ := ok_of_bind holds
    cases holds
    rw [List.foldlM_cons, namedStep, text]
    change straightStep depth (kind, gathered) name w >>= _ = _
    rw [straightStep]
    by_cases type : name = "type"
    · subst type
      rw [under_cons_self, fills_cons_iff] at h
      obtain ⟨rfl, none_, k, made, rfl⟩ := h
      rw [otherMembers, List.filter_cons_of_neg (by simp), if_pos rfl, made]
      exact ih rest (none_ ▸ .left _) gathered
    · rw [under_cons_of_ne type] at h
      rw [otherMembers, List.filter_cons_of_pos (by simpa using type), List.reverse_cons,
        List.append_assoc, if_neg type, held]
      exact ih rest h _

theorem goes_gatherItem (depth : ℕ) (acc : List Value) (w : Written) :
    Goes (fun _ => True) [] (gatherItem depth acc) (valueStep depth acc) w :=
  fun _ _ spelled delimited => yields_iff.mpr
    (bind_pure_of_eq (· :: acc) (value_spelled w spelled delimited depth))

/-- Fields that are listed once hold values that are listed once. -/
theorem exists_values {depth : ℕ} {members fields : List (String × Written)}
    {vs : List (String × Value)} (inside : MembersHold depth members vs)
    (listed : ∀ field ∈ fields, under members field.1 = [field.2]) :
    ∃ us, values depth (fields.map Prod.snd) = .ok us ∧
      List.Forall₂ (fun name u => under vs name = [u]) (fields.map Prod.fst) us := by
  induction fields with
  | nil => exact ⟨[], rfl, .nil⟩
  | cons field fields ih =>
    obtain ⟨head, tail⟩ := List.forall_mem_cons.mp listed
    obtain ⟨us, own, found⟩ := ih tail
    obtain ⟨u, held, here⟩ := inside.exists_value head
    exact ⟨u :: us, by rw [List.map_cons, values, held, own]; rfl, .cons here found⟩

/-- Whether a document has the fields of an expression, and holds in them what makes it. -/
def IsNode (e : Expr) (w : Written) : Prop :=
  ∃ t fields, t.IsText e.kind.name ∧ fields.map Prod.fst = e.kind.fields ∧
    w.HasFields (("type", t) :: fields) ∧ (∀ field ∈ fields, field.2.IsAccepted) ∧
    ∀ depth vs, values depth (fields.map Prod.snd) = .ok vs →
      assembleList (itemParts vs) e.kind = .ok e

section IsNode

variable {e : Expr} {w : Written} {depth : ℕ}

theorem IsNode.isAccepted (h : e.IsNode w) : w.IsAccepted := by
  obtain ⟨t, fields, type, -, laid, accepted, -⟩ := h
  exact laid.isAccepted (List.forall_mem_cons.mpr ⟨type.isAccepted, accepted⟩)

/-- A node that is an object is put together from its fields, wherever they are listed. -/
theorem ofGathered_of_object {t : Written} {members fields rest : List (String × Written)}
    {vs : List (String × Value)} (type : t.IsText e.kind.name)
    (names : fields.map Prod.fst = e.kind.fields)
    (made : ∀ depth vs, values depth (fields.map Prod.snd) = .ok vs →
      assembleList (itemParts vs) e.kind = .ok e)
    (perm : members.Perm (("type", t) :: fields ++ rest))
    (apart : ∀ other ∈ rest, other.1 ∉ (("type", t) :: fields).map Prod.fst)
    (inside : MembersHold depth members vs) :
    under members "type" = [t] ∧ under vs "type" = [.text e.kind.name] ∧
      ofGathered (some e.kind, memberParts (otherMembers vs).reverse) = .ok e := by
  have differ : ((("type", t) :: fields).map Prod.fst).Nodup := by
    rw [List.map_cons, names]
    exact e.kind.nodup_fields
  have listed := under_of_listed perm differ apart
  obtain ⟨head, tail⟩ := List.forall_mem_cons.mp listed
  obtain ⟨v, held, found⟩ := inside.exists_value head
  obtain ⟨us, own, fields_⟩ := exists_values inside tail
  rw [names] at fields_
  rw [type.value_eq held] at found
  refine ⟨head, found, ?_⟩
  rw [memberParts_reverse, ofGathered]
  change assemble (memberParts (otherMembers vs)).reverse.reverse e.kind = .ok e
  rw [List.reverse_reverse]
  exact assemble_of_list (listed_otherMembers fields_) (made depth us own)

/-- What a node holds in memory is taken for the expression. -/
theorem IsNode.ofValue_eq (h : e.IsNode w) {v : Value} (held : w.value depth = .ok v) :
    ofValue v = .ok e := by
  obtain ⟨t, fields, type, names, laid, -, made⟩ := h
  rcases laid with ⟨members, rest, ⟨ms, rfl, named⟩, perm, apart⟩ | rfl
  · cases depth with
    | zero => cases held
    | succ depth =>
      obtain ⟨vs, holds, rfl⟩ := ok_of_map held
      obtain ⟨-, kind, gathered⟩ :=
        ofGathered_of_object type names made perm (fun other mem => (apart other mem).1)
          (membersHold_of_memberValues named holds)
      have tagged : Fills (fun part : Part => Kind.ofValue part.value)
          (under (memberParts vs) "type") none (some e.kind) := by
        rw [memberParts_eq_map, under_map fun v => (⟨v, ofValue v⟩ : Part), kind]
        exact .filled e.kind.ofName_name
      rw [ofValue, ofMembers, separate_of_fills tagged, List.append_nil]
      rw [memberParts_reverse, otherMembers, memberParts_filter fun name => decide (name ≠ "type")]
        at gathered
      exact gathered
  · cases depth with
    | zero => cases held
    | succ depth =>
      obtain ⟨vs, holds, rfl⟩ := ok_of_map held
      obtain ⟨v, us, first, own, rfl⟩ := exists_of_values_cons holds
      rw [type.value_eq first, ofValue, itemParts, ofItems]
      change Kind.ofName e.kind.name >>= _ = _
      rw [e.kind.ofName_name]
      exact made depth us own

/-- A node is read straight wherever there is room for it. -/
theorem IsNode.reader_eq (h : e.IsNode w) (room : w.nesting ≤ depth) {s rest : List Char}
    (spelled : Spells w.tokens s rest) : reader depth s = .ok (e, rest) := by
  obtain ⟨v, held⟩ := h.isAccepted.exists_value room
  obtain ⟨t, fields, type, names, laid, -, made⟩ := h
  rcases laid with ⟨members, others, ⟨ms, rfl, named⟩, perm, apart⟩ | rfl
  · cases depth with
    | zero => cases held
    | succ depth =>
      obtain ⟨vs, holds, rfl⟩ := ok_of_map held
      obtain ⟨kind, -, gathered⟩ :=
        ofGathered_of_object type names made perm (fun other mem => (apart other mem).1)
          (membersHold_of_memberValues named holds)
      have tagged : Fills kindOf (under members "type") none (some e.kind) := by
        rw [kind]
        exact .filled (kindOf_of_isText type)
      obtain ⟨s', shape, spelled⟩ := spelled
      obtain ⟨blanks, hb, -, rfl⟩ := exists_blanks shape
      have read : Yields (fun _ => False)
          (Reader.members (nodeMember depth) (none, [])
            (fun acc => ofGathered (acc.1, memberParts acc.2)) s') rest
          (ms.foldlM (namedStep (straightStep depth)) (none, []) >>=
            fun acc => ofGathered (acc.1, memberParts acc.2)) :=
        members_spelled (fun m _ acc name => goes_nodeMember depth acc name m.2) spelled (none, [])
      rw [foldlM_straightStep named holds tagged, List.append_nil] at read
      change Yields _ _ rest
        (ofGathered (some e.kind, memberParts (otherMembers vs).reverse)) at read
      rw [gathered] at read
      exact (reader_of_object hb depth s').trans read
  · cases depth with
    | zero => cases held
    | succ depth =>
      obtain ⟨vs, holds, -⟩ := ok_of_map held
      obtain ⟨v, us, first, own, -⟩ := exists_of_values_cons holds
      obtain ⟨s', shape, spelled⟩ := spelled
      change Spells (itemTokens true (t :: fields.map Prod.snd)) s' rest at spelled
      obtain ⟨mid, behind, c, r, comma, shape', open_, tag, apart, spelled⟩ :=
        exists_of_itemTokens_cons spelled
      have named := succeeds_kind t _ behind tag apart
      rw [kindOf_of_isText type] at named
      have fewer := length_lt_itemTokens false (fields.map Prod.snd)
      have length :=
        length_le_of_spells (forall_itemTokens (fun w _ => forall_tokens w) false) spelled
      have enough : (fields.map Prod.snd).length < behind.length + 1 := by omega
      have gathered :=
        foldItems_spelled (fun w _ acc => goes_gatherItem depth acc w) spelled enough []
      rw [foldlM_valueStep, own] at gathered
      refine (reader_of_list shape depth).trans ?_
      refine (bind_of_ok (moreItems_of_spells comma shape' open_)).trans ?_
      refine (bind_of_ok named).trans ?_
      rw [get_bind]
      refine (bind_of_ok gathered).trans ?_
      refine (bind_of_ok (closeList_run rest)).trans ?_
      change (liftM (assembleList (itemParts (us.reverse ++ []).reverse) e.kind) : Reader Expr)
        rest = _
      rw [List.append_nil, List.reverse_reverse, made depth us own]
      rfl

end IsNode

/-- Whether a document is an expression, in any layout of each of its nodes. -/
def LaysOut : Expr → Written → Prop
  | literal x, w => ∃ t v, t.IsText Kind.literal.name ∧ v.IsFloat x ∧
    w.HasFields [("type", t), ("value", v)]
  | input name, w => ∃ t v, t.IsText Kind.input.name ∧ v.IsText name ∧
    w.HasFields [("type", t), ("name", v)]
  | binary op left right, w => ∃ t o l r, t.IsText Kind.binary.name ∧ o.IsText op.name ∧
    left.LaysOut l ∧ right.LaysOut r ∧
      w.HasFields [("type", t), ("op", o), ("left", l), ("right", r)]

/-- Every layout of an expression has its fields. -/
theorem isNode_of_laysOut {e : Expr} {w : Written} (h : e.LaysOut w) : e.IsNode w := by
  induction e generalizing w with
  | literal x =>
    obtain ⟨t, v, type, number, laid⟩ := h
    refine ⟨t, [("value", v)], type, rfl, laid, by simpa using number.isAccepted, ?_⟩
    intro depth vs holds
    obtain ⟨u, us, held, none_, rfl⟩ := exists_of_values_cons holds
    cases none_
    rw [itemParts, itemParts]
    change (some <$> u.asFloat >>= fun acc => literalForm.check acc) = _
    rw [number.asFloat_eq held]
    rfl
  | input name =>
    obtain ⟨t, v, type, text, laid⟩ := h
    refine ⟨t, [("name", v)], type, rfl, laid, by simpa using text.isAccepted, ?_⟩
    intro depth vs holds
    obtain ⟨u, us, held, none_, rfl⟩ := exists_of_values_cons holds
    cases none_
    rw [itemParts, itemParts, text.value_eq held]
    rfl
  | binary op left right ihl ihr =>
    obtain ⟨t, o, l, r, type, applies, laidl, laidr, laid⟩ := h
    have nodel := ihl laidl
    have noder := ihr laidr
    refine ⟨t, [("op", o), ("left", l), ("right", r)], type, rfl, laid, ?_, ?_⟩
    · simpa using ⟨applies.isAccepted, nodel.isAccepted, noder.isAccepted⟩
    · intro depth vs holds
      obtain ⟨vo, vs, held, operands, rfl⟩ := exists_of_values_cons holds
      obtain ⟨vl, vs, heldl, last, rfl⟩ := exists_of_values_cons operands
      obtain ⟨vr, vs, heldr, none_, rfl⟩ := exists_of_values_cons last
      cases none_
      rw [itemParts, itemParts, itemParts, itemParts, applies.value_eq held,
        nodel.ofValue_eq heldl, noder.ofValue_eq heldr]
      cases op <;> rfl

/-- A document that holds the value of an expression is one of its layouts. -/
theorem laysOut_of_value {e : Expr} (finite : e.HasFiniteLiterals) {w : Written} {depth : ℕ}
    (h : w.value depth = .ok e.toValue) : e.LaysOut w := by
  induction e generalizing w depth with
  | literal x =>
    obtain ⟨depth, ws, -, object, _ | ⟨type, _ | ⟨number, ⟨⟩⟩⟩⟩ := exists_object_of_value h
    change Written.value depth _ = .ok (Value.ofFloat x) at number
    rw [Value.ofFloat, if_pos (finite x List.mem_cons_self)] at number
    exact ⟨_, _, isLike_of_value type, isLike_of_value number, object.hasFields⟩
  | input name =>
    obtain ⟨depth, ws, -, object, _ | ⟨type, _ | ⟨text, ⟨⟩⟩⟩⟩ := exists_object_of_value h
    exact ⟨_, _, isLike_of_value type, isLike_of_value text, object.hasFields⟩
  | binary op left right ihl ihr =>
    obtain ⟨finitel, finiter⟩ := hasFiniteLiterals_binary.mp finite
    obtain ⟨depth, ws, -, object, _ | ⟨type, _ | ⟨applies, _ | ⟨heldl, _ | ⟨heldr, ⟨⟩⟩⟩⟩⟩⟩ :=
      exists_object_of_value h
    exact ⟨_, _, _, _, isLike_of_value type, isLike_of_value applies, ihl finitel heldl,
      ihr finiter heldr, object.hasFields⟩

/-- An expression is read from every document that lays it out, as long as no more than 127 of its
brackets are open at once; and what is written of an expression with finite literals is such a
document. -/
theorem read_layout (e : Expr) :
    (∀ w text, e.LaysOut w → w.IsSpelled text → (read text = .ok e ↔ w.nesting ≤ depthLimit)) ∧
    (e.HasFiniteLiterals → ∀ sp : Spacing, sp.IsBlank →
      ∃ w, e.LaysOut w ∧ w.IsSpelled (e.toValue.render sp)) := by
  refine ⟨fun w text laid spelled => ⟨fun h => ?_, fun room => ?_⟩, fun finite sp hsp => ?_⟩
  · obtain ⟨w', spelled', made⟩ := (reads_reader depthLimit).exists_of_run h
    obtain ⟨v, held, -⟩ := ok_of_bind made
    -- both documents are the same text, so they hold the same value
    have same : w.value depthLimit = .ok v := by
      rw [← read_of_isSpelled spelled, read_of_isSpelled spelled', held]
    exact (needs_value w depthLimit v same).1
  · obtain ⟨rest, spelled, blank⟩ := spelled
    exact run_of_ok ((isNode_of_laysOut laid).reader_eq room spelled) blank
  · obtain ⟨w, spelled, held⟩ := exists_spelled_render hsp e.isPrinted_toValue
    exact ⟨w, laysOut_of_value finite held, spelled⟩

/-- A quotient that is listed backwards behind a note; its operands are lists. -/
def quotientText : String :=
  " \x7b\"note\": [null],\n\"right\": [\"input\", \"x\"], \"left\": [\"literal\", 2], " ++
    "\"op\": \"divide\", \"type\": \"binary\"\x7d"

def quotient : Expr := binary .divide (literal 2.0) (input "x")

theorem read_layout_quotient :
    ∃ w, quotient.LaysOut w ∧ w.IsSpelled quotientText ∧ read quotientText = .ok quotient := by
  have held : Value.read quotientText = .ok (.object
      [("note", .list [.null]), ("right", .list [.text "input", .text "x"]),
        ("left", .list [.text "literal", .number (.natural 2)]), ("op", .text "divide"),
        ("type", .text "binary")]) := by cbv
  obtain ⟨w, spelled, held⟩ := exists_of_read held
  obtain ⟨_, ws, -, object, holds⟩ := exists_object_of_value held
  obtain _ | ⟨note, _ | ⟨right, _ | ⟨left, _ | ⟨applies, _ | ⟨type, ⟨⟩⟩⟩⟩⟩⟩ := holds
  obtain ⟨rs, _, rfl, rights⟩ := isLike_of_value right
  obtain ⟨ls, _, rfl, lefts⟩ := isLike_of_value left
  obtain _ | ⟨typeLeft, _ | ⟨number, ⟨⟩⟩⟩ := forall₂_of_values lefts
  obtain _ | ⟨typeRight, _ | ⟨name, ⟨⟩⟩⟩ := forall₂_of_values rights
  have two : Number.toFloat (.natural 2) = 2.0 := by decide +kernel
  change IsFloat _ (Number.toFloat (.natural 2)) at number
  rw [two] at number
  have laid : quotient.LaysOut w := by
    refine ⟨_, _, _, _, isLike_of_value type, isLike_of_value applies,
      ⟨_, _, typeLeft, number, .inr rfl⟩, ⟨_, _, typeRight, name, .inr rfl⟩,
      .inl ⟨_, [("note", _)], object, List.reverse_perm [_, _, _, _, _], ?_⟩⟩
    simpa using ⟨_, _, note⟩
  exact ⟨w, laid, spelled, ((read_layout quotient).1 w _ laid spelled).mpr
    (needs_value w depthLimit _ held).1⟩

end Expr
end SymbolicRegression
