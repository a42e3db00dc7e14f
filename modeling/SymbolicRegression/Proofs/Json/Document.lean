import SymbolicRegression.Json.Document
import SymbolicRegression.Proofs.Json.Number
import SymbolicRegression.Proofs.Json.Text

/-!
# Documents read back

A value that is written and read again is the same value, if its lists and objects are not nested
more deeply than the reader allows; otherwise the reader refuses the depth. Blanks between the
tokens make no difference.
-/
namespace SymbolicRegression.Json

open Reader

namespace Value

mutual

/-- How many lists and objects are open inside one another at most. -/
def nesting : Value → ℕ
  | list items => nestingItems items + 1
  | object members => nestingMembers members + 1
  | _ => 0

def nestingItems : List Value → ℕ
  | [] => 0
  | item :: items => max (nesting item) (nestingItems items)

def nestingMembers : List (String × Value) → ℕ
  | [] => 0
  | (_, value) :: members => max (nesting value) (nestingMembers members)

end

mutual

/-- Whether all numbers of a value are such as documents hold. -/
def IsPrinted : Value → Prop
  | number n => n.IsPrinted
  | list items => ArePrinted items
  | object members => MembersArePrinted members
  | _ => True

def ArePrinted : List Value → Prop
  | [] => True
  | item :: items => IsPrinted item ∧ ArePrinted items

def MembersArePrinted : List (String × Value) → Prop
  | [] => True
  | (_, value) :: members => IsPrinted value ∧ MembersArePrinted members

end

theorem isPrinted_ofFloat (x : Float) : (ofFloat x).IsPrinted := by
  unfold ofFloat
  split_ifs with finite
  · exact finite
  · trivial

theorem nesting_ofFloat (x : Float) : (ofFloat x).nesting = 0 := by
  unfold ofFloat
  split_ifs <;> rfl

end Value

/-- A spacing that puts nothing but blanks between tokens. -/
structure Spacing.IsBlank (sp : Spacing) : Prop where
  line : ∀ depth, Blank (sp.line depth)
  gap : Blank sp.gap

theorem isBlank_indented : Spacing.indented.IsBlank where
  line depth c hc := by
    rcases List.mem_cons.mp hc with rfl | hc
    · rfl
    · rw [List.eq_of_mem_replicate hc]
      rfl
  gap c hc := by
    rw [List.mem_singleton.mp hc]
    rfl

theorem isBlank_compact : Spacing.compact.IsBlank := ⟨fun _ => blank_nil, blank_nil⟩

theorem delimited_of_isBlank {c : Char} (h : isBlank c = true) (rest : List Char) :
    Delimited (c :: rest) := by
  simp only [isBlank, Bool.or_eq_true, decide_eq_true_eq] at h
  rcases h with ((rfl | rfl) | rfl) | rfl <;> exact delimited_cons (by decide) rest

theorem Delimited.append_blank {blanks rest : List Char} (hb : Blank blanks)
    (h : Delimited rest) : Delimited (blanks ++ rest) := by
  cases blanks with
  | nil => exact h
  | cons c cs => exact delimited_of_isBlank (hb c List.mem_cons_self) _

namespace Reader

/-- The first item of a list is in front behind its opening bracket. -/
theorem moreItems_first {blanks : List Char} (hb : Blank blanks) {c : Char}
    (hc : isBlank c = false) (open_ : c ≠ ']') (rest : List Char) :
    moreItems true (blanks ++ c :: rest) = .ok (true, c :: rest) := by
  unfold moreItems
  refine (bind_of_ok (peek_of_blank hb hc rest)).trans ?_
  simp only [open_, if_false, if_true]
  rfl

/-- Another item of a list is in front behind a comma. -/
theorem moreItems_next {blanks : List Char} (hb : Blank blanks) {c : Char}
    (hc : isBlank c = false) (open_ : c ≠ ']') (rest : List Char) :
    moreItems false (',' :: (blanks ++ c :: rest)) = .ok (true, c :: rest) := by
  unfold moreItems
  refine (bind_of_ok (peek_cons (by decide) _)).trans ?_
  refine (bind_of_ok (advance_run ',' _)).trans ?_
  refine (bind_of_ok (peek_of_blank hb hc rest)).trans ?_
  trans (pure true : Reader Bool) (c :: rest)
  · apply congrFun
    split
    next h => exact absurd (Option.some.inj h) open_
    next => rfl
    next h => cases h
  · rfl

theorem moreItems_end {blanks : List Char} (hb : Blank blanks) (first : Bool)
    (rest : List Char) :
    moreItems first (blanks ++ ']' :: rest) = .ok (false, ']' :: rest) := by
  unfold moreItems
  refine (bind_of_ok (peek_of_blank hb (by decide) rest)).trans ?_
  rfl

theorem closeList_run (rest : List Char) : closeList (']' :: rest) = .ok ((), rest) := by
  unfold closeList
  refine (bind_of_ok (peek_cons (by decide) _)).trans ?_
  rfl

/-- The first name of an object is in front behind its opening bracket. -/
theorem moreMembers_first {blanks : List Char} (hb : Blank blanks) (rest : List Char) :
    moreMembers true (blanks ++ '"' :: rest) = .ok (true, '"' :: rest) := by
  unfold moreMembers
  refine (bind_of_ok (peek_of_blank hb (by decide) rest)).trans ?_
  rfl

/-- Another name of an object is in front behind a comma. -/
theorem moreMembers_next {blanks : List Char} (hb : Blank blanks) (rest : List Char) :
    moreMembers false (',' :: (blanks ++ '"' :: rest)) = .ok (true, '"' :: rest) := by
  unfold moreMembers
  refine (bind_of_ok (peek_cons (by decide) _)).trans ?_
  refine (bind_of_ok (advance_run ',' _)).trans ?_
  refine (bind_of_ok (peek_of_blank hb (by decide) rest)).trans ?_
  rfl

theorem moreMembers_end {blanks : List Char} (hb : Blank blanks) (first : Bool)
    (rest : List Char) :
    moreMembers first (blanks ++ '\x7d' :: rest) = .ok (false, '\x7d' :: rest) := by
  unfold moreMembers
  refine (bind_of_ok (peek_of_blank hb (by decide) rest)).trans ?_
  rfl

theorem closeObject_run (rest : List Char) : closeObject ('\x7d' :: rest) = .ok ((), rest) := by
  unfold closeObject
  refine (bind_of_ok (peek_cons (by decide) _)).trans ?_
  rfl

theorem colon_run (rest : List Char) : colon (':' :: rest) = .ok ((), rest) := by
  unfold colon
  refine (bind_of_ok (peek_cons (by decide) _)).trans ?_
  rfl

/-- What a list does with each of its items. -/
def gatherItem (depth : ℕ) (acc : List Value) : Reader (List Value) := do
  let item ← value depth
  pure (item :: acc)

/-- What an object does with each of its members. -/
def gatherMember (depth : ℕ) (acc : List (String × Value)) (name : String) :
    Reader (List (String × Value)) := do
  colon
  let item ← value depth
  pure ((name, item) :: acc)

theorem value_of_scalar {blanks : List Char} (hb : Blank blanks) {c : Char}
    (hc : isBlank c = false) (list : c ≠ '[') (object : c ≠ '\x7b') (depth : ℕ)
    (rest : List Char) : value depth (blanks ++ c :: rest) = scalar c (c :: rest) := by
  rw [value.eq_def]
  refine (bind_of_ok (peek_of_blank hb hc rest)).trans ?_
  apply congrFun
  split
  next h => cases h
  next h => exact absurd (Option.some.inj h) list
  next h => exact absurd (Option.some.inj h) object
  next h =>
    cases h
    rfl

theorem value_of_list {blanks : List Char} (hb : Blank blanks) (depth : ℕ) (rest : List Char) :
    value (depth + 1) (blanks ++ '[' :: rest)
      = (items (gatherItem depth) [] >>= fun gathered => pure (gatheredList gathered)) rest := by
  rw [value]
  refine (bind_of_ok (peek_of_blank hb (by decide) rest)).trans ?_
  exact bind_of_ok (advance_run '[' rest)

theorem value_of_object {blanks : List Char} (hb : Blank blanks) (depth : ℕ)
    (rest : List Char) :
    value (depth + 1) (blanks ++ '\x7b' :: rest)
      = members (gatherMember depth) [] (fun gathered => .ok (gatheredObject gathered)) rest := by
  rw [value]
  refine (bind_of_ok (peek_of_blank hb (by decide) rest)).trans ?_
  exact bind_of_ok (advance_run '\x7b' rest)

/-- A gathered object is checked and then closed. -/
theorem members_of_ok {σ α : Type} {member : σ → String → Reader σ} {init acc : σ}
    {text rest : List Char} (check : σ → Except Fault α)
    (h : foldMembers member (text.length + 1) true init text = .ok (acc, '\x7d' :: rest)) :
    members member init check text = (fun a => (a, rest)) <$> check acc := by
  unfold members
  refine (get_bind _ text).trans ?_
  refine (bind_of_ok h).trans ?_
  cases checked : check acc with
  | error fault => rfl
  | ok a =>
    have ready : (liftM (Except.ok a : Except Fault α) : Reader α) ('\x7d' :: rest)
      = .ok (a, '\x7d' :: rest) := rfl
    exact (bind_of_ok ready).trans (bind_of_ok (closeObject_run rest))

theorem members_of_error {σ α : Type} {member : σ → String → Reader σ} {init : σ}
    {text : List Char} {fault : Fault} (check : σ → Except Fault α)
    (h : foldMembers member (text.length + 1) true init text = .error fault) :
    members member init check text = .error fault := by
  unfold members
  refine (get_bind _ text).trans ?_
  exact bind_of_error h

/-- Nothing is gathered behind the last member. -/
theorem foldMembers_end {σ : Type} {member : σ → String → Reader σ} {steps : ℕ} (pos : 0 < steps)
    (first : Bool) (acc : σ) {blanks : List Char} (hb : Blank blanks) (rest : List Char) :
    foldMembers member steps first acc (blanks ++ '\x7d' :: rest)
      = .ok (acc, '\x7d' :: rest) := by
  obtain ⟨steps, rfl⟩ : ∃ n, steps = n + 1 := Nat.exists_eq_succ_of_ne_zero pos.ne'
  exact bind_of_ok (moreMembers_end hb first rest)

/-- The member in front is taken before the others. -/
theorem foldMembers_step {σ : Type} {member : σ → String → Reader σ} {steps : ℕ} {first : Bool}
    {acc : σ} {before after : List Char} {name : String}
    (more : moreMembers first before = .ok (true, quoted name after)) :
    foldMembers member (steps + 1) first acc before
      = (member acc name >>= foldMembers member steps false) after := by
  refine (bind_of_ok more).trans ?_
  exact bind_of_ok (quotedText_quoted name _)

theorem value_zero {blanks : List Char} (hb : Blank blanks) {c : Char}
    (hc : c = '[' ∨ c = '\x7b') (rest : List Char) :
    value 0 (blanks ++ c :: rest) = .error (.grammar .tooDeep) := by
  rw [value]
  rcases hc with rfl | rfl <;>
  · refine (bind_of_ok (peek_of_blank hb (by decide) rest)).trans ?_
    rfl

end Reader

namespace Value

variable {sp : Spacing}

theorem delimited_putItems (hsp : sp.IsBlank) (level : ℕ) (items : List Value)
    (rest : List Char) :
    Delimited (putItems sp (level + 1) items (sp.line level ++ ']' :: rest)) := by
  cases items with
  | nil => exact (delimited_cons (by decide) rest).append_blank (hsp.line level)
  | cons item items => exact delimited_cons (by decide) _

theorem delimited_putMembers (hsp : sp.IsBlank) (level : ℕ) (members : List (String × Value))
    (rest : List Char) :
    Delimited (putMembers sp (level + 1) members (sp.line level ++ '\x7d' :: rest)) := by
  cases members with
  | nil => exact (delimited_cons (by decide) rest).append_blank (hsp.line level)
  | cons member members => exact delimited_cons (by decide) _

/-- What a value starts with: no blank, and no closing bracket. -/
theorem head_put (sp : Spacing) {v : Value} (h : v.IsPrinted) (level : ℕ) (rest : List Char) :
    ∃ c cs, v.put sp level rest = c :: cs ∧ isBlank c = false ∧ c ≠ ']' := by
  cases v with
  | null => exact ⟨'n', _, rfl, rfl, by decide⟩
  | boolean b =>
    cases b with
    | true => exact ⟨'t', _, rfl, rfl, by decide⟩
    | false => exact ⟨'f', _, rfl, rfl, by decide⟩
  | number n =>
    obtain ⟨c, cs, shape, first⟩ := Number.head_number_chars h
    refine ⟨c, cs ++ rest, by rw [put, shape]; rfl, ?_⟩
    rcases first with rfl | digit
    · decide
    · have bounds : 48 ≤ c.val ∧ c.val ≤ 57 := by simpa [Char.isDigit] using digit
      constructor
      · by_contra blank
        simp only [isBlank, Bool.not_eq_false, Bool.or_eq_true, decide_eq_true_eq] at blank
        rcases blank with ((rfl | rfl) | rfl) | rfl <;> cases digit
      · rintro rfl
        cases digit
  | text s => exact ⟨'"', _, rfl, rfl, by decide⟩
  | list items =>
    cases items with
    | nil => exact ⟨'[', _, rfl, rfl, by decide⟩
    | cons item items => exact ⟨'[', _, rfl, rfl, by decide⟩
  | object members =>
    cases members with
    | nil => exact ⟨'\x7b', _, rfl, rfl, by decide⟩
    | cons member members => exact ⟨'\x7b', _, rfl, rfl, by decide⟩

theorem length_le_quoted (s : String) (rest : List Char) :
    rest.length ≤ (quoted s rest).length := by
  simp only [quoted, List.length_cons, List.length_append]
  omega

mutual

/-- What is written in front of a text does not shorten it. -/
theorem length_le_put (sp : Spacing) (level : ℕ) (rest : List Char) :
    (v : Value) → rest.length ≤ (v.put sp level rest).length
  | null => by simp only [put, List.length_cons]; omega
  | boolean true => by simp only [put, List.length_cons]; omega
  | boolean false => by simp only [put, List.length_cons]; omega
  | number n => by simp only [put, List.length_append]; omega
  | text s => length_le_quoted s rest
  | list [] => by simp only [put, List.length_cons]; omega
  | list (item :: items) => by
    have tail := length_le_putItems sp (level + 1) (sp.line level ++ ']' :: rest) items
    have head := length_le_put sp (level + 1)
      (putItems sp (level + 1) items (sp.line level ++ ']' :: rest)) item
    simp only [put, List.length_cons, List.length_append] at tail ⊢
    omega
  | object [] => by simp only [put, List.length_cons]; omega
  | object ((name, value) :: members) => by
    have tail := length_le_putMembers sp (level + 1) (sp.line level ++ '\x7d' :: rest) members
    have head := length_le_put sp (level + 1)
      (putMembers sp (level + 1) members (sp.line level ++ '\x7d' :: rest)) value
    have named := length_le_quoted name (':' :: (sp.gap ++ put sp (level + 1) value
      (putMembers sp (level + 1) members (sp.line level ++ '\x7d' :: rest))))
    simp only [put, List.length_cons, List.length_append] at tail named ⊢
    omega

/-- Every item takes a character. -/
theorem length_le_putItems (sp : Spacing) (level : ℕ) (rest : List Char) :
    (items : List Value) → items.length + rest.length ≤ (putItems sp level items rest).length
  | [] => by simp [putItems]
  | item :: items => by
    have tail := length_le_putItems sp level rest items
    have head := length_le_put sp level (putItems sp level items rest) item
    simp only [putItems, List.length_cons, List.length_append]
    omega

/-- Every member takes a character. -/
theorem length_le_putMembers (sp : Spacing) (level : ℕ) (rest : List Char) :
    (members : List (String × Value)) →
      members.length + rest.length ≤ (putMembers sp level members rest).length
  | [] => by simp [putMembers]
  | (name, value) :: members => by
    have tail := length_le_putMembers sp level rest members
    have head := length_le_put sp level (putMembers sp level members rest) value
    have named := length_le_quoted name
      (':' :: (sp.gap ++ put sp level value (putMembers sp level members rest)))
    simp only [putMembers, List.length_cons, List.length_append] at named ⊢
    omega

end

/-- What reading comes to if a nesting of `n` meets a limit of `depth`. -/
def within {α : Type} (n depth : ℕ) (result : α × List Char) : Except Fault (α × List Char) :=
  if n ≤ depth then .ok result else .error (.grammar .tooDeep)

theorem within_succ {α : Type} (n depth : ℕ) (result : α × List Char) :
    within (n + 1) (depth + 1) result = within n depth result := by
  simp [within]

theorem within_zero {α : Type} (depth : ℕ) (result : α × List Char) :
    within 0 depth result = .ok result := by
  simp [within]

/-- One reading after another comes to what the deeper of both comes to. -/
theorem within_bind {α β : Type} {m : Reader α} {f : α → Reader β} {s s' : List Char} {a : α}
    {n k depth : ℕ} {result : β × List Char} (first : m s = within n depth (a, s'))
    (second : f a s' = within k depth result) :
    (m >>= f) s = within (max n k) depth result := by
  unfold within at first ⊢
  by_cases fits : n ≤ depth
  · rw [if_pos fits] at first
    rw [bind_of_ok first, second, within]
    simp [fits]
  · rw [if_neg fits] at first
    rw [bind_of_error first, if_neg (by omega)]

/-- A gathered list is closed. -/
theorem items_of_fold {item : List Value → Reader (List Value)} {acc : List Value}
    {text rest : List Char} {n depth : ℕ}
    (h : foldItems item (text.length + 1) true [] text = within n depth (acc, ']' :: rest)) :
    (items item [] >>= fun gathered => pure (gatheredList gathered)) text
      = within n depth (gatheredList acc, rest) := by
  unfold within at h ⊢
  split_ifs at h ⊢
  · have closed : items item [] text = .ok (acc, rest) := by
      refine (get_bind _ text).trans ?_
      refine (bind_of_ok h).trans ?_
      exact bind_of_ok (closeList_run rest)
    exact bind_of_ok closed
  · refine bind_of_error ?_
    refine (get_bind _ text).trans ?_
    exact bind_of_error h

/-- A gathered object is closed. -/
theorem members_of_fold
    {member : List (String × Value) → String → Reader (List (String × Value))}
    {acc : List (String × Value)} {text rest : List Char} {n depth : ℕ}
    (h : foldMembers member (text.length + 1) true [] text
      = within n depth (acc, '\x7d' :: rest)) :
    members member [] (fun gathered => .ok (gatheredObject gathered)) text
      = within n depth (gatheredObject acc, rest) := by
  unfold within at h ⊢
  split_ifs at h ⊢
  · exact members_of_ok _ h
  · exact members_of_error _ h

theorem scalar_of_number {c : Char} (h : c = '-' ∨ c.isDigit = true) :
    scalar c = (do let n ← Reader.number; pure (.number n) : Reader Value) := by
  unfold scalar
  rw [if_neg, if_neg, if_neg, if_neg, if_pos h]
  all_goals
    rintro rfl
    rcases h with h | h <;> cases h

theorem value_put_number {depth level : ℕ} {blanks rest : List Char} (hb : Blank blanks)
    (hrest : Delimited rest) {n : Number} (h : n.IsPrinted) :
    Reader.value depth (blanks ++ (number n).put sp level rest) = .ok (number n, rest) := by
  obtain ⟨c, cs, shape, first⟩ := Number.head_number_chars h
  have printed : (number n).IsPrinted := h
  obtain ⟨d, ds, shape', blank, -⟩ := head_put sp printed level rest
  have same : (number n).put sp level rest = c :: (cs ++ rest) := by rw [put, shape]; rfl
  have read := Number.number_chars h hrest
  rw [shape, List.cons_append] at read
  rw [same] at shape' ⊢
  cases shape'
  rw [value_of_scalar hb blank, scalar_of_number first]
  · exact bind_of_ok read
  all_goals
    rintro rfl
    rcases first with h | h <;> cases h

/-- The next item is gathered before the others. -/
theorem foldItems_cons {depth n k steps : ℕ} {first : Bool} {before after tail : List Char}
    {v : Value} {acc : List Value} {result : List Value × List Char}
    (more : moreItems first before = .ok (true, after))
    (read : Reader.value depth after = within n depth (v, tail))
    (others : foldItems (gatherItem depth) steps false (v :: acc) tail = within k depth result) :
    foldItems (gatherItem depth) (steps + 1) first acc before
      = within (max n k) depth result := by
  have gather : gatherItem depth acc after = within n depth (v :: acc, tail) := by
    have := within_bind (f := fun item => pure (item :: acc)) (k := 0) read
      (within_zero depth _).symm
    rwa [Nat.max_zero] at this
  exact (bind_of_ok more).trans (within_bind gather others)

/-- The next member is gathered before the others. -/
theorem foldMembers_cons {depth n k steps : ℕ} {first : Bool} {before after tail : List Char}
    {name : String} {v : Value} {acc : List (String × Value)}
    {result : List (String × Value) × List Char}
    (more : moreMembers first before = .ok (true, quoted name (':' :: after)))
    (read : Reader.value depth after = within n depth (v, tail))
    (others : foldMembers (gatherMember depth) steps false ((name, v) :: acc) tail
      = within k depth result) :
    foldMembers (gatherMember depth) (steps + 1) first acc before
      = within (max n k) depth result := by
  have gather : gatherMember depth acc name (':' :: after)
      = within n depth ((name, v) :: acc, tail) := by
    have := within_bind (f := fun item => pure ((name, item) :: acc)) (k := 0) read
      (within_zero depth _).symm
    rw [Nat.max_zero] at this
    exact (bind_of_ok (colon_run after)).trans this
  exact (foldMembers_step more).trans (within_bind gather others)

theorem length_lt_list (sp : Spacing) (level : ℕ) (rest : List Char) (item : Value)
    (items : List Value) :
    items.length < (sp.line (level + 1) ++ item.put sp (level + 1)
      (putItems sp (level + 1) items (sp.line level ++ ']' :: rest))).length := by
  have tail := length_le_putItems sp (level + 1) (sp.line level ++ ']' :: rest) items
  have head := length_le_put sp (level + 1)
    (putItems sp (level + 1) items (sp.line level ++ ']' :: rest)) item
  simp only [List.length_append, List.length_cons] at tail head ⊢
  omega

theorem length_lt_object (sp : Spacing) (level : ℕ) (rest : List Char) (name : String)
    (value : Value) (members : List (String × Value)) :
    members.length < (sp.line (level + 1) ++ quoted name (':' :: (sp.gap ++
      value.put sp (level + 1) (putMembers sp (level + 1) members
        (sp.line level ++ '\x7d' :: rest))))).length := by
  have tail := length_le_putMembers sp (level + 1) (sp.line level ++ '\x7d' :: rest) members
  have head := length_le_put sp (level + 1)
    (putMembers sp (level + 1) members (sp.line level ++ '\x7d' :: rest)) value
  have named := length_le_quoted name (':' :: (sp.gap ++ put sp (level + 1) value
    (putMembers sp (level + 1) members (sp.line level ++ '\x7d' :: rest))))
  simp only [List.length_append, List.length_cons] at tail head named ⊢
  omega

/-- A list is read back if its first item and then the others are. -/
theorem value_put_list (hsp : sp.IsBlank) {depth level : ℕ} {blanks rest : List Char}
    (hb : Blank blanks) {item : Value} {items : List Value} (hitem : item.IsPrinted)
    (read : Reader.value depth ([] ++ item.put sp (level + 1)
        (putItems sp (level + 1) items (sp.line level ++ ']' :: rest)))
      = within item.nesting depth
        (item, putItems sp (level + 1) items (sp.line level ++ ']' :: rest)))
    (others : foldItems (gatherItem depth)
        (sp.line (level + 1) ++ item.put sp (level + 1)
          (putItems sp (level + 1) items (sp.line level ++ ']' :: rest))).length false [item]
        (putItems sp (level + 1) items (sp.line level ++ ']' :: rest))
      = within (nestingItems items) depth (items.reverse ++ [item], ']' :: rest)) :
    Reader.value (depth + 1) (blanks ++ (list (item :: items)).put sp level rest)
      = within (list (item :: items)).nesting (depth + 1) (list (item :: items), rest) := by
  obtain ⟨c, cs, shape, hc, open_⟩ := head_put sp hitem (level + 1)
    (putItems sp (level + 1) items (sp.line level ++ ']' :: rest))
  rw [shape] at others
  rw [List.nil_append, shape] at read
  rw [nesting, within_succ, put, shape]
  refine (value_of_list hb depth _).trans ?_
  have gathered := items_of_fold
    (foldItems_cons (moreItems_first (hsp.line _) hc open_ cs) read others)
  rwa [gatheredList, List.reverse_append, List.reverse_reverse, List.reverse_singleton,
    List.singleton_append] at gathered

/-- An object is read back if the value of its first member and then the others are. -/
theorem value_put_object (hsp : sp.IsBlank) {depth level : ℕ} {blanks rest : List Char}
    (hb : Blank blanks) {name : String} {value : Value} {members : List (String × Value)}
    (read : Reader.value depth (sp.gap ++ value.put sp (level + 1)
        (putMembers sp (level + 1) members (sp.line level ++ '\x7d' :: rest)))
      = within value.nesting depth
        (value, putMembers sp (level + 1) members (sp.line level ++ '\x7d' :: rest)))
    (others : foldMembers (gatherMember depth)
        (sp.line (level + 1) ++ quoted name (':' :: (sp.gap ++ value.put sp (level + 1)
          (putMembers sp (level + 1) members (sp.line level ++ '\x7d' :: rest))))).length false
        [(name, value)] (putMembers sp (level + 1) members (sp.line level ++ '\x7d' :: rest))
      = within (nestingMembers members) depth
        (members.reverse ++ [(name, value)], '\x7d' :: rest)) :
    Reader.value (depth + 1) (blanks ++ (object ((name, value) :: members)).put sp level rest)
      = within (object ((name, value) :: members)).nesting (depth + 1)
        (object ((name, value) :: members), rest) := by
  rw [nesting, within_succ, put]
  refine (value_of_object hb depth _).trans ?_
  have gathered := members_of_fold
    (foldMembers_cons (moreMembers_first (hsp.line _) _) read others)
  rwa [gatheredObject, List.reverse_append, List.reverse_reverse, List.reverse_singleton,
    List.singleton_append] at gathered

/-- Whether a limit on the depth reads every written value back, unless it is nested too deeply. -/
def ReadsBack (sp : Spacing) (depth : ℕ) : Prop :=
  ∀ (level : ℕ) {blanks rest : List Char}, Blank blanks → Delimited rest →
    ∀ v : Value, v.IsPrinted →
      Reader.value depth (blanks ++ v.put sp level rest) = within v.nesting depth (v, rest)

/-- Written items are gathered, unless one of them is nested too deeply. -/
theorem foldItems_putItems (hsp : sp.IsBlank) {depth : ℕ} (back : ReadsBack sp depth) (level : ℕ)
    (rest : List Char) (items acc : List Value) {steps : ℕ} (printed : ArePrinted items)
    (hsteps : items.length < steps) :
    foldItems (gatherItem depth) steps false acc
        (putItems sp (level + 1) items (sp.line level ++ ']' :: rest))
      = within (nestingItems items) depth (items.reverse ++ acc, ']' :: rest) := by
  induction items generalizing acc steps with
  | nil =>
    obtain ⟨steps, rfl⟩ : ∃ n, steps = n + 1 := ⟨steps - 1, by omega⟩
    exact bind_of_ok (moreItems_end (hsp.line level) false rest)
  | cons item items ih =>
    obtain ⟨steps, rfl⟩ : ∃ n, steps = n + 1 := ⟨steps - 1, by omega⟩
    obtain ⟨c, cs, shape, hc, open_⟩ := head_put sp printed.1 (level + 1)
      (putItems sp (level + 1) items (sp.line level ++ ']' :: rest))
    have read := back (level + 1) blank_nil (delimited_putItems hsp level items rest) item printed.1
    have others := ih (item :: acc) printed.2 (Nat.lt_of_succ_lt_succ hsteps)
    rw [List.nil_append, shape] at read
    rw [putItems, shape, nestingItems, List.reverse_cons, List.append_assoc]
    exact foldItems_cons (moreItems_next (hsp.line _) hc open_ cs) read others

/-- Written members are gathered, unless the value of one of them is nested too deeply. -/
theorem foldMembers_putMembers (hsp : sp.IsBlank) {depth : ℕ} (back : ReadsBack sp depth)
    (level : ℕ) (rest : List Char) (members acc : List (String × Value)) {steps : ℕ}
    (printed : MembersArePrinted members) (hsteps : members.length < steps) :
    foldMembers (gatherMember depth) steps false acc
        (putMembers sp (level + 1) members (sp.line level ++ '\x7d' :: rest))
      = within (nestingMembers members) depth (members.reverse ++ acc, '\x7d' :: rest) := by
  induction members generalizing acc steps with
  | nil => exact foldMembers_end hsteps false acc (hsp.line level) rest
  | cons member members ih =>
    obtain ⟨name, value⟩ := member
    obtain ⟨steps, rfl⟩ : ∃ n, steps = n + 1 := ⟨steps - 1, by omega⟩
    have read := back (level + 1) hsp.gap (delimited_putMembers hsp level members rest) value
      printed.1
    have others := ih ((name, value) :: acc) printed.2 (Nat.lt_of_succ_lt_succ hsteps)
    rw [putMembers, nestingMembers, List.reverse_cons, List.append_assoc]
    exact foldMembers_cons (moreMembers_next (hsp.line _) _) read others

/-- A written value that holds no other value is read back. -/
theorem value_put_flat {depth level : ℕ} {blanks rest : List Char} (hb : Blank blanks)
    (hrest : Delimited rest) {v : Value} (flat : v.nesting = 0) (h : v.IsPrinted) :
    Reader.value depth (blanks ++ v.put sp level rest) = within v.nesting depth (v, rest) := by
  rw [flat, within_zero]
  cases v with
  | null =>
    refine (value_of_scalar hb (by decide) (by decide) (by decide) depth _).trans ?_
    exact bind_of_ok (word_append ['n', 'u', 'l', 'l'] rest)
  | boolean b =>
    cases b with
    | true =>
      refine (value_of_scalar hb (by decide) (by decide) (by decide) depth _).trans ?_
      exact bind_of_ok (word_append ['t', 'r', 'u', 'e'] rest)
    | false =>
      refine (value_of_scalar hb (by decide) (by decide) (by decide) depth _).trans ?_
      exact bind_of_ok (word_append ['f', 'a', 'l', 's', 'e'] rest)
  | number n => exact value_put_number hb hrest h
  | text s =>
    refine (value_of_scalar hb (by decide) (by decide) (by decide) depth _).trans ?_
    exact bind_of_ok (quotedText_quoted s rest)
  | list items => cases flat
  | object members => cases flat

/-- A written value is read back, unless it is nested too deeply. -/
theorem value_put (hsp : sp.IsBlank) (depth : ℕ) : ReadsBack sp depth := by
  -- Lists and objects lower the limit for what they hold, so the induction is on the limit.
  induction depth with
  | zero =>
    intro level blanks rest hb hrest v h
    cases v with
    | list items => cases items <;> exact value_zero hb (.inl rfl) _
    | object members => cases members <;> exact value_zero hb (.inr rfl) _
    | _ => exact value_put_flat hb hrest rfl h
  | succ depth ih =>
    intro level blanks rest hb hrest v h
    cases v with
    | list items =>
      cases items with
      | nil =>
        rw [nesting, within_succ]
        refine (value_of_list hb depth _).trans ?_
        have nothing : foldItems (gatherItem depth) ((']' :: rest).length + 1) true []
            (']' :: rest) = within 0 depth ([], ']' :: rest) :=
          (bind_of_ok (moreItems_end blank_nil true rest)).trans (within_zero depth _).symm
        exact items_of_fold nothing
      | cons item items =>
        have read := ih (level + 1) blank_nil (delimited_putItems hsp level items rest) item h.1
        have others := foldItems_putItems hsp ih level rest items [item] h.2
          (length_lt_list sp level rest item items)
        exact value_put_list hsp hb h.1 read others
    | object members =>
      cases members with
      | nil =>
        rw [nesting, within_succ]
        refine (value_of_object hb depth _).trans ?_
        have nothing : foldMembers (gatherMember depth) (('\x7d' :: rest).length + 1) true []
            ('\x7d' :: rest) = within 0 depth ([], '\x7d' :: rest) :=
          (foldMembers_end (Nat.succ_pos _) true [] blank_nil rest).trans
            (within_zero depth _).symm
        exact members_of_fold nothing
      | cons member members =>
        obtain ⟨name, value⟩ := member
        have read := ih (level + 1) hsp.gap (delimited_putMembers hsp level members rest) value h.1
        have others := foldMembers_putMembers hsp ih level rest members [(name, value)] h.2
          (length_lt_object sp level rest name value members)
        exact value_put_object hsp hb read others
    | _ => exact value_put_flat hb hrest rfl h

/-- A document that holds a value is read as that value, unless it is nested too deeply. -/
theorem read_render (hsp : sp.IsBlank) {v : Value} (h : v.IsPrinted) (depth : ℕ) :
    Reader.value depth (v.render sp).toList = within v.nesting depth (v, []) := by
  rw [render, String.toList_ofList]
  exact value_put hsp depth 0 blank_nil delimited_nil v h

/-- What reading comes to if a nesting of `n` meets a limit of `depth`, and what has been read is
then taken for something else. -/
def taken {α : Type} (n depth : ℕ) (result : Except Fault α) (rest : List Char) :
    Except Fault (α × List Char) :=
  if n ≤ depth then (fun a => (a, rest)) <$> result else .error (.grammar .tooDeep)

/-- Behind a reader that leaves nothing the text has to end, and does. -/
theorem run_of_taken {α : Type} {reader : Reader α} {text : String} {n depth : ℕ}
    {result : Except Fault α} (h : reader text.toList = taken n depth result []) :
    reader.run text = if n ≤ depth then result else .error (.grammar .tooDeep) := by
  rw [Reader.run, h, taken]
  split_ifs
  · cases result <;> rfl
  · rfl

end Value
end SymbolicRegression.Json
