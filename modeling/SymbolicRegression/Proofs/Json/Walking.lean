import SymbolicRegression.Proofs.Json.Document
import SymbolicRegression.Proofs.Json.Grammar

/-!
# Walking through lists and objects

Lists and objects are read item by item by a reader that is given. If all that it takes are
documents, and what it makes of them is told by a step on their trees, then a whole walk takes a
list or an object and makes of it what the steps make one after another. Conversely a walk goes
through every list and every object through whose items it can go.
-/
namespace SymbolicRegression.Json

open Reader Written

variable {σ : Type}

/-- What a step on documents makes of a member with a name that is still to be decoded. -/
def namedStep (step : σ → String → Written → Except Fault σ) (acc : σ)
    (member : WrittenText × Written) : Except Fault σ := do
  let name ← member.1.text
  step acc name member.2

/-- Whether all that a reader takes is a document behind the given tokens, and what it makes of it
is told by the tree of the document. -/
def Reads {α : Type} (lead : List (List Char)) (reader : Reader α)
    (meaning : Written → Except Fault α) : Prop :=
  ∀ s a rest, reader s = .ok (a, rest) →
    ∃ w : Written, Spells (lead ++ w.tokens) s rest ∧ meaning w = .ok a

namespace Reader

section Taking

variable {s s' rest : List Char} {first : Bool}

theorem peek_eq (s : List Char) :
    peek s = .ok ((s.dropWhile isBlank).head?, s.dropWhile isBlank) := rfl

/-- Blanks in front make no difference to a reader that looks ahead first. -/
theorem peek_bind_dropWhile {α : Type} (f : Option Char → Reader α) (s : List Char) :
    (peek >>= f) (s.dropWhile isBlank) = (peek >>= f) s := by
  rw [bind_of_ok (peek_eq _), bind_of_ok (peek_eq s), List.dropWhile_idempotent]

/-- Blanks in front of a token make no difference, and neither do tokens before them. -/
theorem spells_behind {before behind : List (List Char)} (h : behind ≠ []) {mid : List Char}
    (first : Spells before s mid) (second : Spells behind (mid.dropWhile isBlank) rest) :
    Spells (before ++ behind) s rest :=
  spells_append.mpr ⟨mid, first, (spells_dropWhile h).mp second⟩

/-- What is in front where an item has been announced, and where none has. -/
theorem moreItems_eq_ok {more : Bool} (h : moreItems first s = .ok (more, s')) :
    (more = false ∧ ∃ rest, s' = ']' :: rest ∧ Spells [[']']] s rest) ∨
      more = true ∧ ∃ mid, Spells (separator first) s mid ∧ s' = mid.dropWhile isBlank := by
  unfold moreItems at h
  rw [bind_of_ok (peek_eq s)] at h
  cases shape : s.dropWhile isBlank with
  | nil =>
    rw [shape] at h
    cases h
  | cons c r =>
    simp only [shape, List.head?_cons] at h
    split_ifs at h with close start comma
    · cases h
      exact .inl ⟨rfl, r, by rw [close], r, by rw [shape, close]; rfl, rfl⟩
    · cases h
      exact .inr ⟨rfl, s, by rw [start]; rfl, shape.symm⟩
    · rw [bind_of_ok (advance_run c r), bind_of_ok (peek_eq r)] at h
      refine .inr ?_
      cases behind : r.dropWhile isBlank with
      | nil =>
        rw [behind] at h
        cases h
      | cons d r' =>
        by_cases close : d = ']'
        · rw [behind, close] at h
          cases h
        · have taken : (pure true : Reader Bool) (d :: r') = .ok (more, s') := by
            rw [← h, behind]
            apply congrFun
            split
            next same => exact absurd (Option.some.inj same) close
            next => rfl
            next none_ => cases none_
          cases taken
          refine ⟨rfl, r, ?_, behind.symm⟩
          rw [Bool.eq_false_iff.mpr start]
          exact ⟨r, by rw [shape, comma]; rfl, rfl⟩
    · cases h

/-- What is in front where a member has been announced, and where none has. -/
theorem moreMembers_eq_ok {more : Bool} (h : moreMembers first s = .ok (more, s')) :
    (more = false ∧ ∃ rest, s' = '\x7d' :: rest ∧ Spells [['\x7d']] s rest) ∨
      more = true ∧ ∃ mid r, Spells (separator first) s mid ∧
        mid.dropWhile isBlank = '"' :: r ∧ s' = '"' :: r := by
  unfold moreMembers at h
  rw [bind_of_ok (peek_eq s)] at h
  cases shape : s.dropWhile isBlank with
  | nil =>
    rw [shape] at h
    cases h
  | cons c r =>
    simp only [shape, List.head?_cons] at h
    split_ifs at h with close start quote comma
    · cases h
      exact .inl ⟨rfl, r, by rw [close], r, by rw [shape, close]; rfl, rfl⟩
    · cases h
      exact .inr ⟨rfl, s, r, by rw [start]; rfl, by rw [shape, quote], by rw [quote]⟩
    · cases h
    · rw [bind_of_ok (advance_run c r), bind_of_ok (peek_eq r)] at h
      obtain rfl : first = false := Bool.eq_false_iff.mpr start
      cases behind : r.dropWhile isBlank with
      | nil =>
        rw [behind] at h
        cases h
      | cons d r' =>
        rw [behind] at h
        by_cases quote : d = '"'
        · rw [quote] at h
          cases h
          exact .inr ⟨rfl, r, r', ⟨r, by rw [shape, comma]; rfl, rfl⟩, by rw [behind, quote], rfl⟩
        by_cases bracket : d = '\x7d'
        · rw [bracket] at h
          cases h
        · have refused : (fail .keyNotText : Reader Bool) (d :: r') = .ok (more, s') := by
            rw [← h]
            apply congrFun
            split
            next same => exact absurd (Option.some.inj same) quote
            next same => exact absurd (Option.some.inj same) bracket
            next => rfl
            next none_ => cases none_
          cases refused
    · cases h

theorem colon_eq_ok (h : colon s = .ok ((), rest)) : Spells [[':']] s rest := by
  unfold colon at h
  rw [bind_of_ok (peek_eq s)] at h
  cases shape : s.dropWhile isBlank with
  | nil =>
    rw [shape] at h
    cases h
  | cons c r =>
    rw [shape] at h
    by_cases mark : c = ':'
    · rw [mark] at h
      cases h
      exact ⟨r, by rw [shape, mark]; rfl, rfl⟩
    · have refused : (fail .expectedColon : Reader Unit) (c :: r) = .ok ((), rest) := by
        rw [← h]
        apply congrFun
        split
        next same => exact absurd (Option.some.inj same) mark
        next => rfl
        next none_ => cases none_
      cases refused

/-- What is decoded is a text in quotes. -/
theorem quotedText_eq_ok {name : String} (h : quotedText ('"' :: s) = .ok (name, rest)) :
    ∃ t : WrittenText, '"' :: s = t.token ++ rest ∧ t.text = .ok name := by
  unfold quotedText at h
  rw [List.tail_cons] at h
  cases decoded : decode s with
  | error fault =>
    rw [decoded] at h
    cases h
  | ok result =>
    rw [decoded] at h
    cases h
    obtain ⟨t, rfl, letters⟩ := exists_of_decode decoded
    refine ⟨t, by simp [WrittenText.token], ?_⟩
    rw [WrittenText.text, letters]

/-- What a walk through a list takes are the items of a list, and it makes of them what the steps
make. -/
theorem foldItems_eq_ok {item : σ → Reader σ} {step : σ → Written → Except Fault σ}
    (reads : ∀ acc, Reads [] (item acc) (step acc))
    {fuel : ℕ} {acc acc' : σ} (h : foldItems item fuel first acc s = .ok (acc', s')) :
    ∃ ws rest, s' = ']' :: rest ∧ Spells (itemTokens first ws) s rest ∧
      ws.foldlM step acc = .ok acc' := by
  induction fuel generalizing first acc s with
  | zero => cases h
  | succ fuel ih =>
    unfold foldItems at h
    obtain ⟨more, front, announced, h⟩ := exists_of_bind h
    rcases moreItems_eq_ok announced with ⟨rfl, rest, rfl, close⟩ | ⟨rfl, mid, comma, rfl⟩
    · cases h
      exact ⟨[], rest, rfl, close, rfl⟩
    · obtain ⟨acc₁, s₁, first_, h⟩ := exists_of_bind h
      obtain ⟨w, spelled, made⟩ := reads _ _ _ _ first_
      obtain ⟨ws, rest, rfl, others, folded⟩ := ih h
      refine ⟨w :: ws, rest, rfl, ?_, ?_⟩
      · rw [itemTokens]
        exact spells_behind (by simp [tokens_ne_nil]) comma
          (spells_append.mpr ⟨s₁, spelled, others⟩)
      · rw [List.foldlM_cons, made]
        exact folded

/-- What a walk through an object takes are the members of an object, and it makes of them what the
steps make. -/
theorem foldMembers_eq_ok {member : σ → String → Reader σ}
    {step : σ → String → Written → Except Fault σ}
    (reads : ∀ acc name, Reads [[':']] (member acc name) (step acc name))
    {fuel : ℕ} {acc acc' : σ} (h : foldMembers member fuel first acc s = .ok (acc', s')) :
    ∃ ms rest, s' = '\x7d' :: rest ∧ Spells (memberTokens first ms) s rest ∧
      ms.foldlM (namedStep step) acc = .ok acc' := by
  induction fuel generalizing first acc s with
  | zero => cases h
  | succ fuel ih =>
    unfold foldMembers at h
    obtain ⟨more, front, announced, h⟩ := exists_of_bind h
    rcases moreMembers_eq_ok announced with
      ⟨rfl, rest, rfl, close⟩ | ⟨rfl, mid, r, comma, shape, rfl⟩
    · cases h
      exact ⟨[], rest, rfl, close, rfl⟩
    · obtain ⟨name, s₁, named, h⟩ := exists_of_bind h
      obtain ⟨acc₁, s₂, first_, h⟩ := exists_of_bind h
      obtain ⟨t, token, text⟩ := quotedText_eq_ok named
      obtain ⟨w, spelled, made⟩ := reads _ _ _ _ _ first_
      obtain ⟨ms, rest, rfl, others, folded⟩ := ih h
      refine ⟨(t, w) :: ms, rest, rfl, ?_, ?_⟩
      · rw [memberTokens]
        refine spells_append.mpr ⟨mid, comma, ⟨s₁, shape.trans token, ?_⟩⟩
        change Spells (([':'] :: w.tokens) ++ memberTokens false ms) s₁ rest
        exact spells_append.mpr ⟨s₂, spelled, others⟩
      · rw [List.foldlM_cons, namedStep, text]
        change (step acc name w >>= fun acc => ms.foldlM (namedStep step) acc) = _
        rw [made]
        exact folded

/-- What is read as a list is one. -/
theorem items_eq_ok {item : σ → Reader σ} {step : σ → Written → Except Fault σ}
    (reads : ∀ acc, Reads [] (item acc) (step acc))
    {init result : σ} (h : items item init s = .ok (result, rest)) :
    ∃ ws, Spells (itemTokens true ws) s rest ∧ ws.foldlM step init = .ok result := by
  unfold items at h
  rw [get_bind] at h
  obtain ⟨gathered, s₁, folded, h⟩ := exists_of_bind h
  obtain ⟨ws, rest', rfl, spelled, made⟩ := foldItems_eq_ok reads folded
  rw [bind_of_ok (closeList_run rest')] at h
  cases h
  exact ⟨ws, spelled, made⟩

/-- What is read as an object is one. -/
theorem members_eq_ok {α : Type} {member : σ → String → Reader σ}
    {step : σ → String → Written → Except Fault σ} {check : σ → Except Fault α}
    (reads : ∀ acc name, Reads [[':']] (member acc name) (step acc name))
    {init : σ} {result : α} (h : members member init check s = .ok (result, rest)) :
    ∃ ms, Spells (memberTokens true ms) s rest ∧
      ms.foldlM (namedStep step) init >>= check = .ok result := by
  unfold members at h
  rw [get_bind] at h
  obtain ⟨gathered, s₁, folded, h⟩ := exists_of_bind h
  obtain ⟨ms, rest', rfl, spelled, made⟩ := foldMembers_eq_ok reads folded
  obtain ⟨b, s₂, lifted, h⟩ := exists_of_bind h
  obtain ⟨checked, rfl⟩ := lift_eq_ok lifted
  rw [bind_of_ok (closeObject_run rest')] at h
  cases h
  exact ⟨ms, spelled, by rw [made]; exact checked⟩

end Taking

end Reader

/-- A text whose first token cannot belong to a number. -/
theorem delimited_of_dropWhile {s r : List Char} {c : Char} (h : s.dropWhile isBlank = c :: r)
    (hc : c.isDigit = false ∧ c ≠ '.' ∧ c ≠ 'e' ∧ c ≠ 'E') : Delimited s := by
  obtain ⟨blanks, hb, -, rfl⟩ := exists_blanks h
  exact (delimited_cons hc r).append_blank hb

theorem delimited_itemTokens {items : List Written} {s rest : List Char}
    (h : Spells (itemTokens false items) s rest) : Delimited s := by
  cases items with
  | nil =>
    obtain ⟨r, shape, -⟩ := h
    exact delimited_of_dropWhile shape (by decide)
  | cons item items =>
    obtain ⟨r, shape, -⟩ := h
    exact delimited_of_dropWhile shape (by decide)

theorem delimited_memberTokens {members : List (WrittenText × Written)} {s rest : List Char}
    (h : Spells (memberTokens false members) s rest) : Delimited s := by
  cases members with
  | nil =>
    obtain ⟨r, shape, -⟩ := h
    exact delimited_of_dropWhile shape (by decide)
  | cons member members =>
    obtain ⟨r, shape, -⟩ := h
    exact delimited_of_dropWhile shape (by decide)

/-- A list with a first item: what is in front of it, the item itself, and what is behind. -/
theorem exists_of_itemTokens_cons {first : Bool} {w : Written} {ws : List Written}
    {s rest : List Char} (h : Spells (itemTokens first (w :: ws)) s rest) :
    ∃ mid behind c r, Spells (separator first) s mid ∧ mid.dropWhile isBlank = c :: r ∧ c ≠ ']' ∧
      Spells w.tokens (c :: r) behind ∧ Delimited behind ∧
      Spells (itemTokens false ws) behind rest := by
  rw [itemTokens] at h
  obtain ⟨mid, comma, h⟩ := spells_append.mp h
  obtain ⟨c, cs, tokens, start, -, open_⟩ := exists_head w
  have front : Spells ((c :: cs) :: (tokens ++ itemTokens false ws)) mid rest := by
    rwa [start] at h
  obtain ⟨r, shape⟩ := dropWhile_of_spells front
  obtain ⟨behind, own, others⟩ := spells_append.mp h
  rw [← spells_dropWhile w.tokens_ne_nil, shape] at own
  exact ⟨mid, behind, c, _, comma, shape, open_, own, delimited_itemTokens others, others⟩

/-- An object with a first member: what is in front of it, the member itself, and what is behind. -/
theorem exists_of_memberTokens_cons {first : Bool} {t : WrittenText} {w : Written}
    {ms : List (WrittenText × Written)} {s rest : List Char}
    (h : Spells (memberTokens first ((t, w) :: ms)) s rest) :
    ∃ mid r behind, Spells (separator first) s mid ∧ mid.dropWhile isBlank = t.token ++ r ∧
      Spells ([':'] :: w.tokens) r behind ∧ Delimited behind ∧
      Spells (memberTokens false ms) behind rest := by
  rw [memberTokens] at h
  obtain ⟨mid, comma, r, shape, h⟩ := spells_append.mp h
  change Spells (([':'] :: w.tokens) ++ memberTokens false ms) r rest at h
  obtain ⟨behind, own, others⟩ := spells_append.mp h
  exact ⟨mid, r, behind, comma, shape, own, delimited_memberTokens others, others⟩

/-- Whether a result is what is expected, with `rest` behind it. Only some faults are expected to
show as they are. -/
def Yields {α : Type} (known : Fault → Prop) (result : Except Fault (α × List Char))
    (rest : List Char) : Except Fault α → Prop
  | .ok a => result = .ok (a, rest)
  | .error fault => known fault → result = .error fault

/-- Whether a reader goes through a document behind the given tokens, and yields what its tree
means. -/
def Goes {α : Type} (known : Fault → Prop) (lead : List (List Char)) (reader : Reader α)
    (meaning : Written → Except Fault α) (w : Written) : Prop :=
  ∀ s rest, Spells (lead ++ w.tokens) s rest → Delimited rest →
    Yields known (reader s) rest (meaning w)

section Yields

variable {α β : Type} {known : Fault → Prop} {s mid rest : List Char}

/-- If all faults show as they are, the result is determined. -/
theorem yields_iff {result : Except Fault (α × List Char)} {expected : Except Fault α} :
    Yields (fun _ => True) result rest expected ↔ result = (fun a => (a, rest)) <$> expected := by
  cases expected with
  | ok a => rfl
  | error fault => exact ⟨fun h => h trivial, fun h _ => h⟩

theorem yields_of_eq {result : Except Fault (α × List Char)} {expected : Except Fault α}
    (h : result = (fun a => (a, rest)) <$> expected) : Yields known result rest expected := by
  cases expected with
  | ok a => exact h
  | error fault => exact fun _ => h

/-- A chain of steps that yield what is expected. -/
theorem Yields.bind {m : Reader α} {f : α → Reader β} {expected : Except Fault α}
    {further : α → Except Fault β} (first : Yields known (m s) mid expected)
    (second : ∀ a, Yields known (f a mid) rest (further a)) :
    Yields known ((m >>= f) s) rest (expected >>= further) := by
  cases expected with
  | ok a =>
    rw [bind_of_ok first]
    exact second a
  | error fault => exact fun h => bind_of_error (first h)

end Yields

namespace Reader

section Going

variable {known : Fault → Prop} {s mid rest : List Char} {first : Bool}

theorem moreItems_of_spells (comma : Spells (separator first) s mid) {c : Char} {r : List Char}
    (shape : mid.dropWhile isBlank = c :: r) (open_ : c ≠ ']') :
    moreItems first s = .ok (true, c :: r) := by
  obtain ⟨blanks, hb, hc, rfl⟩ := exists_blanks shape
  cases first with
  | true =>
    obtain rfl : s = blanks ++ c :: r := comma
    exact moreItems_first hb hc open_ r
  | false =>
    obtain ⟨s', shape', rfl⟩ := comma
    refine (peek_bind_dropWhile _ s).symm.trans ?_
    rw [shape']
    exact moreItems_next hb hc open_ r

theorem moreItems_of_close (h : Spells [[']']] s rest) (first : Bool) :
    moreItems first s = .ok (false, ']' :: rest) := by
  obtain ⟨s', shape, rfl⟩ := h
  refine (peek_bind_dropWhile _ s).symm.trans ?_
  rw [shape]
  exact moreItems_end blank_nil first s'

theorem moreMembers_of_spells (comma : Spells (separator first) s mid) {r : List Char}
    (shape : mid.dropWhile isBlank = '"' :: r) : moreMembers first s = .ok (true, '"' :: r) := by
  obtain ⟨blanks, hb, -, rfl⟩ := exists_blanks shape
  cases first with
  | true =>
    obtain rfl : s = blanks ++ '"' :: r := comma
    exact moreMembers_first hb r
  | false =>
    obtain ⟨s', shape', rfl⟩ := comma
    refine (peek_bind_dropWhile _ s).symm.trans ?_
    rw [shape']
    exact moreMembers_next hb r

theorem moreMembers_of_close (h : Spells [['\x7d']] s rest) (first : Bool) :
    moreMembers first s = .ok (false, '\x7d' :: rest) := by
  obtain ⟨s', shape, rfl⟩ := h
  refine (peek_bind_dropWhile _ s).symm.trans ?_
  rw [shape]
  exact moreMembers_end blank_nil first s'

theorem colon_of_spells (h : Spells [[':']] s rest) : colon s = .ok ((), rest) := by
  obtain ⟨s', shape, rfl⟩ := h
  refine (peek_bind_dropWhile _ s).symm.trans ?_
  rw [shape]
  exact colon_run s'

/-- A text in quotes is decoded as far as it stands for a text. -/
theorem quotedText_spelled (t : WrittenText) (rest : List Char) :
    quotedText (t.token ++ rest) = (fun name => (name, rest)) <$> t.text := by
  have shape : (t.token ++ rest).tail = t.chars ++ '"' :: rest := by simp [WrittenText.token]
  unfold quotedText
  rw [shape, decode_spelled, WrittenText.text]
  cases t.letters <;> rfl

/-- A walk through a list goes through all of its items, if it can go through each of them. -/
theorem foldItems_spelled {item : σ → Reader σ} {step : σ → Written → Except Fault σ}
    {ws : List Written}
    (goes : ∀ w ∈ ws, ∀ acc, Goes known [] (item acc) (step acc) w)
    (h : Spells (itemTokens first ws) s rest) {fuel : ℕ} (enough : ws.length < fuel) (acc : σ) :
    Yields known (foldItems item fuel first acc s) (']' :: rest) (ws.foldlM step acc) := by
  induction ws generalizing first s fuel acc with
  | nil =>
    obtain ⟨fuel, rfl⟩ : ∃ n, fuel = n + 1 := Nat.exists_eq_succ_of_ne_zero enough.ne'
    exact bind_of_ok (moreItems_of_close h first)
  | cons w ws ih =>
    obtain ⟨fuel, rfl⟩ : ∃ n, fuel = n + 1 := ⟨fuel - 1, by omega⟩
    obtain ⟨front, others⟩ := List.forall_mem_cons.mp goes
    obtain ⟨mid, behind, c, r, comma, shape, open_, own, delimited, h⟩ :=
      exists_of_itemTokens_cons h
    unfold foldItems
    rw [bind_of_ok (moreItems_of_spells comma shape open_), List.foldlM_cons]
    exact (front acc _ _ own delimited).bind fun acc =>
      ih others h (Nat.lt_of_succ_lt_succ enough) acc

/-- A walk through an object goes through all of its members, if it can go through each of them. -/
theorem foldMembers_spelled {member : σ → String → Reader σ}
    {step : σ → String → Written → Except Fault σ} {ms : List (WrittenText × Written)}
    (goes : ∀ m ∈ ms, ∀ acc name, Goes known [[':']] (member acc name) (step acc name) m.2)
    (h : Spells (memberTokens first ms) s rest) {fuel : ℕ} (enough : ms.length < fuel) (acc : σ) :
    Yields known (foldMembers member fuel first acc s) ('\x7d' :: rest)
      (ms.foldlM (namedStep step) acc) := by
  induction ms generalizing first s fuel acc with
  | nil =>
    obtain ⟨fuel, rfl⟩ : ∃ n, fuel = n + 1 := Nat.exists_eq_succ_of_ne_zero enough.ne'
    exact bind_of_ok (moreMembers_of_close h first)
  | cons m ms ih =>
    obtain ⟨fuel, rfl⟩ : ∃ n, fuel = n + 1 := ⟨fuel - 1, by omega⟩
    obtain ⟨t, w⟩ := m
    obtain ⟨front, others⟩ := List.forall_mem_cons.mp goes
    obtain ⟨mid, r, behind, comma, shape, own, delimited, h⟩ := exists_of_memberTokens_cons h
    unfold foldMembers
    rw [bind_of_ok (moreMembers_of_spells comma shape), List.foldlM_cons, namedStep, bind_assoc]
    have named : Yields known (quotedText (t.token ++ r)) r t.text :=
      yields_of_eq (quotedText_spelled t r)
    refine named.bind fun name => ?_
    exact (front acc name _ _ own delimited).bind fun acc =>
      ih others h (Nat.lt_of_succ_lt_succ enough) acc

/-- A list is read if each of its items can be read. -/
theorem items_spelled {item : σ → Reader σ} {step : σ → Written → Except Fault σ}
    {ws : List Written}
    (goes : ∀ w ∈ ws, ∀ acc, Goes known [] (item acc) (step acc) w)
    (h : Spells (itemTokens true ws) s rest) (init : σ) :
    Yields known (items item init s) rest (ws.foldlM step init) := by
  have fewer := length_lt_itemTokens true ws
  have length := length_le_of_spells (forall_itemTokens (fun w _ => forall_tokens w) true) h
  have enough : ws.length < s.length + 1 := by omega
  have folded := foldItems_spelled goes h enough init
  unfold items
  rw [get_bind]
  cases made : ws.foldlM step init with
  | ok acc =>
    rw [made] at folded
    refine (bind_of_ok folded).trans ?_
    exact bind_of_ok (closeList_run rest)
  | error fault =>
    rw [made] at folded
    exact fun shown => bind_of_error (folded shown)

/-- An object is read if each of its members can be read. -/
theorem members_spelled {α : Type} {member : σ → String → Reader σ}
    {step : σ → String → Written → Except Fault σ} {check : σ → Except Fault α}
    {ms : List (WrittenText × Written)}
    (goes : ∀ m ∈ ms, ∀ acc name, Goes known [[':']] (member acc name) (step acc name) m.2)
    (h : Spells (memberTokens true ms) s rest) (init : σ) :
    Yields known (members member init check s) rest
      (ms.foldlM (namedStep step) init >>= check) := by
  have fewer := length_lt_memberTokens true ms
  have length := length_le_of_spells (forall_memberTokens (fun m _ => forall_tokens m.2) true) h
  have enough : ms.length < s.length + 1 := by omega
  have folded := foldMembers_spelled goes h enough init
  cases made : ms.foldlM (namedStep step) init with
  | ok acc =>
    rw [made] at folded
    exact yields_of_eq (members_of_ok check folded)
  | error fault =>
    rw [made] at folded
    exact fun shown => members_of_error check (folded shown)

end Going

end Reader
end SymbolicRegression.Json
