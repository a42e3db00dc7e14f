import SymbolicRegression.Proofs.Expr.Json

/-!
# Expressions read straight from a text

The reader of expressions takes the type of a node as it comes by and holds the other members in
memory, while a document of any shape is held in memory whole. Of a written expression both make
the same: the members behind the type are gathered one by one, and the node is put together from
them. A tree that is nested too deeply is refused before anything is put together.
-/
namespace SymbolicRegression.Expr

open Json Reader

/-- What the reader of expressions does with each member of a node. -/
def nodeMember (depth : ℕ) (acc : Option Kind × List (String × Value)) (name : String) :
    Reader (Option Kind × List (String × Value)) := do
  if name = "type" then
    match acc.1 with
    | some _ => reject (.duplicateField name)
    | none =>
      colon
      let kind ← Kind.read
      pure (some kind, acc.2)
  else
    colon
    let item ← Reader.value depth
    pure (acc.1, (name, item) :: acc.2)

theorem reader_of_object {blanks : List Char} (hb : Blank blanks) (depth : ℕ)
    (rest : List Char) :
    reader (depth + 1) (blanks ++ '\x7b' :: rest) =
      members (nodeMember depth) (none, []) (fun acc => ofGathered (acc.1, memberParts acc.2))
        rest := by
  rw [reader]
  refine (bind_of_ok (peek_of_blank hb (by decide) rest)).trans ?_
  exact bind_of_ok (advance_run '\x7b' rest)

theorem reader_zero {blanks : List Char} (hb : Blank blanks) (rest : List Char) :
    reader 0 (blanks ++ '\x7b' :: rest) = .error (.grammar .tooDeep) := by
  rw [reader]
  refine (bind_of_ok (peek_of_blank hb (by decide) rest)).trans ?_
  rfl

/-- The name of a form is read as that form. -/
theorem kind_read {blanks : List Char} (hb : Blank blanks) (kind : Kind) (rest : List Char) :
    Kind.read (blanks ++ quoted kind.name rest) = .ok (kind, rest) := by
  have name : Reader.text "variant identifier" (blanks ++ quoted kind.name rest)
      = .ok (kind.name, rest) := by
    refine (bind_of_ok (peek_of_blank hb (by decide) _)).trans ?_
    exact quotedText_quoted kind.name rest
  refine (bind_of_ok name).trans ?_
  cases kind <;> rfl

/-- The type of a node is taken as it comes by. -/
theorem nodeMember_type {blanks : List Char} (hb : Blank blanks) (depth : ℕ) (kind : Kind)
    (rest : List Char) :
    nodeMember depth (none, []) "type" (':' :: (blanks ++ quoted kind.name rest))
      = .ok ((some kind, []), rest) := by
  refine (bind_of_ok (colon_run _)).trans ?_
  exact bind_of_ok (kind_read hb kind rest)

/-- Any other member is held in memory. -/
theorem nodeMember_of_ne {name : String} (h : name ≠ "type") {depth n : ℕ}
    {acc : Option Kind × List (String × Value)} {item : Value} {text rest : List Char}
    (read : Reader.value depth text = Value.within n depth (item, rest)) :
    nodeMember depth acc name (':' :: text) =
      Value.within n depth ((acc.1, (name, item) :: acc.2), rest) := by
  have held : (Reader.value depth >>= fun item => pure (acc.1, (name, item) :: acc.2)) text =
      Value.within (max n 0) depth ((acc.1, (name, item) :: acc.2), rest) :=
    Value.within_bind read (Value.within_zero depth _).symm
  rw [Nat.max_zero] at held
  unfold nodeMember
  rw [if_neg h]
  exact (bind_of_ok (colon_run text)).trans held

variable {sp : Spacing}

/-- Written members behind the type are gathered, unless the value of one of them is nested too
deeply. -/
theorem foldMembers_nodeMember (hsp : sp.IsBlank) (depth level : ℕ) (rest : List Char)
    (kind : Option Kind) (acc : List (String × Value)) {members : List (String × Value)}
    {steps : ℕ} (names : ∀ member ∈ members, member.1 ≠ "type")
    (printed : Value.MembersArePrinted members) (enough : members.length < steps) :
    foldMembers (nodeMember depth) steps false (kind, acc)
        (Value.putMembers sp (level + 1) members (sp.line level ++ '\x7d' :: rest))
      = Value.within (Value.nestingMembers members) depth
          ((kind, members.reverse ++ acc), '\x7d' :: rest) := by
  induction members generalizing acc steps with
  | nil =>
    rw [Value.putMembers, Value.nestingMembers, Value.within_zero]
    exact foldMembers_end enough false (kind, acc) (hsp.line level) rest
  | cons member members ih =>
    obtain ⟨name, value⟩ := member
    obtain ⟨steps, rfl⟩ : ∃ n, steps = n + 1 := ⟨steps - 1, by omega⟩
    obtain ⟨hvalue, hmembers⟩ := printed
    have other : name ≠ "type" := names (name, value) List.mem_cons_self
    have read := Value.value_put hsp depth (level + 1) hsp.gap
      (Value.delimited_putMembers hsp level members rest) value hvalue
    have others := ih ((name, value) :: acc)
      (fun member h => names member (List.mem_cons_of_mem _ h)) hmembers
      (Nat.lt_of_succ_lt_succ enough)
    rw [Value.putMembers, Value.nestingMembers, List.reverse_cons, List.append_assoc]
    refine (foldMembers_step (moreMembers_next (hsp.line _) _)).trans ?_
    exact Value.within_bind (nodeMember_of_ne other read) others

/-- Every node is written with its type first, and the names behind it are others. -/
theorem exists_members (e : Expr) :
    ∃ (kind : Kind) (members : List (String × Value)),
      e.toValue = .object (("type", .text kind.name) :: members) ∧
        ∀ member ∈ members, member.1 ≠ "type" := by
  cases e with
  | literal x => exact ⟨.literal, _, rfl, by simp⟩
  | input name => exact ⟨.input, _, rfl, by simp⟩
  | binary op left right => exact ⟨.binary, _, rfl, by simp⟩

theorem memberParts_eq_map (members : List (String × Value)) :
    memberParts members =
      members.map fun member => (member.1, ⟨member.2, ofValue member.2⟩) := by
  induction members with
  | nil => rfl
  | cons member members ih =>
    rw [memberParts, ih]
    rfl

theorem memberParts_reverse (members : List (String × Value)) :
    memberParts members.reverse = (memberParts members).reverse := by
  rw [memberParts_eq_map, memberParts_eq_map, List.map_reverse]

/-- The members behind the type are gathered in reverse. -/
theorem separate_memberParts {members : List (String × Value)} (kind : Option Kind)
    (acc : List (String × Part)) (names : ∀ member ∈ members, member.1 ≠ "type") :
    separate (kind, acc) (memberParts members) =
      .ok (kind, (memberParts members).reverse ++ acc) := by
  induction members generalizing acc with
  | nil => rfl
  | cons member members ih =>
    obtain ⟨name, value⟩ := member
    have other : name ≠ "type" := names (name, value) List.mem_cons_self
    rw [memberParts, separate.eq_def]
    simp only [if_neg other]
    rw [ih _ fun member h => names member (List.mem_cons_of_mem _ h), List.reverse_cons,
      List.append_assoc, List.singleton_append]

/-- A node with its type first is put together from the members behind it. -/
theorem ofValue_node (kind : Kind) {members : List (String × Value)}
    (names : ∀ member ∈ members, member.1 ≠ "type") :
    ofValue (.object (("type", .text kind.name) :: members)) =
      ofGathered (some kind, memberParts members.reverse) := by
  have typed : separate (none, []) (memberParts (("type", .text kind.name) :: members)) =
      separate (some kind, []) (memberParts members) := by
    rw [memberParts]
    cases kind <;> rfl
  rw [ofValue, ofMembers, typed, separate_memberParts _ _ names, memberParts_reverse,
    List.append_nil]
  rfl

/-- A written expression is read straight from its text as what its value is in memory, unless the
tree is nested too deeply. -/
theorem reader_put (hsp : sp.IsBlank) (depth level : ℕ) {blanks : List Char} (hb : Blank blanks)
    (rest : List Char) (e : Expr) :
    reader depth (blanks ++ e.toValue.put sp level rest) =
      Value.taken e.depth depth (ofValue e.toValue) rest := by
  obtain ⟨kind, members, shape, names⟩ := e.exists_members
  have printed := e.isPrinted_toValue
  have nesting := e.nesting_toValue
  rw [shape] at printed nesting
  rw [shape, ofValue_node kind names, ← nesting, Value.put, Value.nesting, Value.nestingMembers]
  cases depth with
  | zero => exact reader_zero hb _
  | succ depth =>
    refine (reader_of_object hb depth _).trans ?_
    -- the type is taken first, and all members behind it are held in memory
    have room := Value.length_lt_object sp level rest "type" (.text kind.name) members
    have others := foldMembers_nodeMember hsp depth level rest (some kind) [] names
      printed.2 room
    have gathered := ((foldMembers_step (moreMembers_first (hsp.line (level + 1)) _)).trans
      (bind_of_ok (nodeMember_type hsp.gap depth kind _))).trans others
    have flat : (Value.text kind.name).nesting = 0 := rfl
    rw [List.append_nil] at gathered
    rw [flat, Nat.zero_max]
    unfold Value.within at gathered
    unfold Value.taken
    simp only [Nat.succ_le_succ_iff]
    split_ifs at gathered ⊢ with fits
    · exact members_of_ok _ gathered
    · exact members_of_error _ gathered

/-- What the text of an expression is read as by itself. -/
theorem read_render (hsp : sp.IsBlank) (e : Expr) :
    read (e.toValue.render sp) =
      if e.depth ≤ depthLimit then ofValue e.toValue else .error (.grammar .tooDeep) := by
  refine Value.run_of_taken ?_
  rw [Value.render, String.toList_ofList]
  exact reader_put hsp depthLimit 0 blank_nil [] e

end SymbolicRegression.Expr
