import SymbolicRegression.Dataset.Sample
import SymbolicRegression.Proofs.Mutation.Closure
import SymbolicRegression.Proofs.Random.Constant

/-!
# The depth of fresh trees

From the greatest depth of generation on, what decides about a node is a part of the weight of the
leaves. If every such part stays below the weight, only leaves come up there, so growth ends by
itself; the bound that the definition puts on the number of levels then plays no role. A weight of
the leaves of at most `2 ^ -1023` has parts that are rounded up to it: binary nodes come up at any
depth, and the source of nothing but ones grows a tree without end.
-/
namespace SymbolicRegression.Mutation.Context

open Draw

variable {σ : Type} [WordSource σ] {c : Context}

/-- The greatest number of levels of a fresh tree whose root stands at `depth`. -/
def levelCap (c : Context) (depth : ℕ) : ℕ := max 1 (c.parameters.maxDepth.toNat + 1 - depth)

/-- Weights of all leaves together up to this one can be drawn in full. -/
def coarseWeight : Float := 1.1125369292536007e-308

/-- Whether the leaves weigh so little that a draw can round up to their weight. -/
def HasCoarseLeaves (c : Context) : Prop := c.parameters.leafWeight ≤ coarseWeight

instance (c : Context) : Decidable c.HasCoarseLeaves := inferInstanceAs (Decidable (_ ≤ _))

theorem coarseWeight_eq : coarseWeight = Float.ofBits 0x0008000000000000 := by decide +kernel

theorem isFinite_coarseWeight : coarseWeight.isFinite = true := by
  rw [coarseWeight_eq]
  decide

theorem toRat_coarseWeight : Binary64.toRat coarseWeight = coarsest := by
  have unpacked : (Float.ofBits 0x0008000000000000).toModel.unpack
      = .finite .positive (2 ^ 51) (-1074) (Nat.two_pow_pos 51) := rfl
  rw [Binary64.toRat, coarseWeight_eq, unpacked, coarsest_eq, Binary64.value_positive]
  norm_cast

theorem coarsest_lt_leafWeight (h : ¬c.HasCoarseLeaves)
    (finite : c.parameters.leafWeight.isFinite = true) :
    coarsest < Binary64.toRat c.parameters.leafWeight := by
  rwa [HasCoarseLeaves, Binary64.le_iff finite isFinite_coarseWeight, toRat_coarseWeight,
    not_le] at h

/-- At the greatest depth a draw stays below the weight of the leaves. -/
theorem lt_leafWeight (h : ¬c.HasCoarseLeaves) {depth : ℕ}
    (deep : c.parameters.maxDepth.toNat ≤ depth)
    (finite : (c.totalWeight depth).isFinite = true) (v : UInt64) :
    scaledTo (c.totalWeight depth) v < c.parameters.leafWeight := by
  have leaves : c.totalWeight depth = c.parameters.leafWeight := if_neg (by omega)
  rw [leaves] at finite ⊢
  exact scaledTo_lt (coarsest_lt_leafWeight h finite) v

theorem one_le_levelCap (depth : ℕ) : 1 ≤ c.levelCap depth := le_max_left _ _

theorem levelCap_of_lt {depth : ℕ} (h : depth < c.parameters.maxDepth.toNat) :
    c.levelCap depth = c.levelCap (depth + 1) + 1 := by
  unfold levelCap
  omega

/-- Above the greatest depth, operands that keep to the cap below make a node that keeps to its
own. -/
theorem combine_capped {depth : ℕ} (shallow : depth < c.parameters.maxDepth.toNat) (op : Operator)
    {left right : Expr}
    (hleft : left.depth ≤ c.levelCap (depth + 1) ∧ left.size < 2 ^ c.levelCap (depth + 1))
    (hright : right.depth ≤ c.levelCap (depth + 1) ∧ right.size < 2 ^ c.levelCap (depth + 1)) :
    (Expr.combine op left right).depth ≤ c.levelCap depth ∧
      (Expr.combine op left right).size < 2 ^ c.levelCap depth := by
  rw [Expr.depth_combine, Expr.size_combine, levelCap_of_lt shallow, pow_succ]
  omega

/-- With enough levels a fresh tree keeps to its cap, and does not run out of levels: nothing but
ranges can fail. -/
theorem yields_tree_capped {fault : DrawError → Prop} (admits : c.AdmitsRanges fault)
    (h : ¬c.HasCoarseLeaves) (levels : ℕ) {depth : ℕ} (hd : 0 < depth)
    (enough : c.levelCap depth ≤ levels) :
    Yields (c.tree levels depth : Draw σ Expr)
      (fun e => e.depth ≤ c.levelCap depth ∧ e.size < 2 ^ c.levelCap depth) fault := by
  have one : 1 ≤ c.levelCap depth := one_le_levelCap depth
  have leaf : 1 < 2 ^ c.levelCap depth := Nat.one_lt_two_pow (by omega)
  induction levels generalizing depth with
  | zero => omega
  | succ levels ih =>
    refine yields_bind (yields_weight admits hd) fun r hr => ?_
    obtain ⟨finite, v, rfl⟩ := hr
    refine yields_ite (fun literal => ?_) fun _ => yields_ite (fun _ => ?_) fun binary => ?_
    · exact yields_seq (yields_delta admits (drawsDelta_of_lt finite literal)) fun x =>
        yields_pure ⟨one, leaf⟩
    · exact yields_bind yields_inputName fun name _ => yields_pure ⟨one, leaf⟩
    · have shallow : depth < c.parameters.maxDepth.toNat := by
        by_contra deep
        exact binary (lt_leafWeight h (not_lt.mp deep) finite v)
      have next := levelCap_of_lt shallow
      have some_level := one_le_levelCap (c := c) (depth + 1)
      have child : Yields (c.tree levels (depth + 1) : Draw σ Expr)
          (fun e => e.depth ≤ c.levelCap (depth + 1) ∧ e.size < 2 ^ c.levelCap (depth + 1))
          fault :=
        ih (by omega) (by omega) some_level (Nat.one_lt_two_pow (by omega))
      refine yields_seq yields_operator fun op => yields_bind child fun left hleft =>
        yields_bind child fun right hright => yields_pure (combine_capped shallow op hleft hright)

/-- A fresh tree has enough levels. -/
theorem levelCap_one_le : c.levelCap 1 ≤ c.parameters.maxDepth.toNat + spareLevels := by
  unfold levelCap spareLevels
  omega

/-- Where growth ends by itself, nothing but ranges can end a mutation. -/
theorem AdmitsRanges.admits_of_not_coarse {fault : DrawError → Prop}
    (admits : c.AdmitsRanges fault) (h : ¬c.HasCoarseLeaves) : c.Admits fault :=
  ⟨admits, fun _ _ => (yields_tree_capped admits h _ Nat.one_pos levelCap_one_le).mono
    (fun _ _ => trivial) fun _ fails => fails⟩

/-- Trees with enough levels do not depend on how many there are. -/
theorem tree_congr (h : ¬c.HasCoarseLeaves) {levels levels' depth : ℕ} (hd : 0 < depth)
    (enough : c.levelCap depth ≤ levels) (enough' : c.levelCap depth ≤ levels') :
    (c.tree levels depth : Draw σ Expr) = c.tree levels' depth := by
  have admits : c.AdmitsRanges (· ≠ .tooDeep) := admitsRanges_of_unbounded (by decide)
  induction levels generalizing levels' depth with
  | zero =>
    have := one_le_levelCap (c := c) depth
    omega
  | succ levels ih =>
    have one := one_le_levelCap (c := c) depth
    obtain ⟨levels', rfl⟩ : ∃ n, levels' = n + 1 := ⟨levels' - 1, by omega⟩
    refine bind_congr (yields_weight admits hd) fun r hr => ?_
    obtain ⟨finite, v, rfl⟩ := hr
    by_cases shallow : depth < c.parameters.maxDepth.toNat
    · have next := levelCap_of_lt shallow
      have same : (c.tree levels (depth + 1) : Draw σ Expr) = c.tree levels' (depth + 1) :=
        ih (by omega) (by omega) (by omega)
      rw [same]
    · have below := lt_leafWeight h (not_lt.mp shallow) finite v
      simp only [below, if_true]

theorem toRat_leafWeight_of_coarse (h : c.HasCoarseLeaves) :
    0 < Binary64.toRat c.parameters.leafWeight ∧
      Binary64.toRat c.parameters.leafWeight ≤ coarsest := by
  have finite := Binary64.isFinite_of_le isFinite_coarseWeight c.sensible.leafWeight_positive h
  refine ⟨c.sensible.leafWeight_pos finite, ?_⟩
  rwa [HasCoarseLeaves, Binary64.le_iff finite isFinite_coarseWeight, toRat_coarseWeight] at h

theorem coarsest_le_one : coarsest ≤ 1 :=
  zpow_le_one_of_nonpos₀ (by norm_num) (by norm_num)

theorem isFinite_totalWeight_of_coarse (h : c.HasCoarseLeaves) (depth : ℕ) :
    (c.totalWeight depth).isFinite = true := by
  obtain ⟨pos, coarse⟩ := toRat_leafWeight_of_coarse h
  obtain ⟨binary_finite, binary_nonneg⟩ := c.sensible.binaryWeight
  unfold totalWeight
  split_ifs
  · exact Binary64.isFinite_add_of_le_one pos (coarse.trans coarsest_le_one) binary_finite
      binary_nonneg
  · exact Binary64.isFinite_of_pos pos

theorem leafWeight_le_totalWeight {depth : ℕ} (finite : (c.totalWeight depth).isFinite = true) :
    Binary64.toRat c.parameters.leafWeight ≤ Binary64.toRat (c.totalWeight depth) := by
  unfold totalWeight at finite ⊢
  split_ifs at finite ⊢
  · obtain ⟨binary_finite, binary_nonneg⟩ := c.sensible.binaryWeight
    exact Binary64.toRat_le_add (c.sensible.leafWeight_pos (Binary64.isFinite_of_add finite))
      binary_finite binary_nonneg finite
  · exact le_rfl

theorem literalWeight_le_leafWeight (finite : c.parameters.leafWeight.isFinite = true) :
    Binary64.toRat c.parameters.literalWeight ≤ Binary64.toRat c.parameters.leafWeight := by
  obtain ⟨-, literal_nonneg⟩ := c.sensible.literalWeight
  obtain ⟨input_finite, input_nonneg⟩ := c.sensible.inputWeight
  rcases literal_nonneg.eq_or_lt with zero | pos
  · rw [← zero]
    exact (c.sensible.leafWeight_pos finite).le
  · exact Binary64.toRat_le_add pos input_finite input_nonneg finite

/-- Where the leaves weigh too little, no leaf comes up on the greatest words. -/
theorem leafWeight_le_scaledTo (h : c.HasCoarseLeaves) (depth : ℕ) :
    ¬scaledTo (c.totalWeight depth) ones.wide < c.parameters.literalWeight ∧
      ¬scaledTo (c.totalWeight depth) ones.wide < c.parameters.leafWeight := by
  obtain ⟨pos, coarse⟩ := toRat_leafWeight_of_coarse h
  have total := isFinite_totalWeight_of_coarse h depth
  have leaves := Binary64.isFinite_of_pos pos
  obtain ⟨literal, -⟩ := c.sensible.literalWeight
  have drawn := (scaledTo_spec (totalWeight_pos total) ones.wide).1
  have reached := le_scaledTo pos coarse (leafWeight_le_totalWeight total) units_wide_ones
  rw [Binary64.lt_iff drawn literal, Binary64.lt_iff drawn leaves, not_lt, not_lt]
  exact ⟨(literalWeight_le_leafWeight leaves).trans reached, reached⟩

/-- Then growth does not end, however many levels it is given. -/
theorem tree_ones_of_coarse (h : c.HasCoarseLeaves) (levels depth : ℕ) :
    c.tree levels depth ones = .error .tooDeep := by
  induction levels generalizing depth with
  | zero => rfl
  | succ levels ih =>
    have total := isFinite_totalWeight_of_coarse h depth
    rw [← Binary64.sub_zero (c.totalWeight depth)] at total
    obtain ⟨literal, leaf⟩ := leafWeight_le_scaledTo h depth
    obtain ⟨op, drawn⟩ : ∃ op, operator ones = .ok (op, ones) := ⟨_, rfl⟩
    unfold tree
    rw [bind_of_ok (between_constant (c.isEmpty_weights depth) total ones)]
    unfold scaledTo at literal leaf
    rw [if_neg literal, if_neg leaf, bind_of_ok drawn, bind_of_error (ih (depth + 1))]

/-- Growth ends by itself, within the greatest depth of generation or after a single level, exactly
if the leaves weigh more than `2 ^ -1023`. It then has the same outcome with any number of levels
from that depth on, and a tree that comes out of it keeps to the depth. -/
theorem freshTree_capped_iff (c : Context) :
    (∀ (σ : Type) [WordSource σ] (s : σ),
        (∀ levels, max 1 c.parameters.maxDepth.toNat ≤ levels → c.tree levels 1 s = c.freshTree s) ∧
        c.freshTree s ≠ .error .tooDeep ∧
        ∀ e s', c.freshTree s = .ok (e, s') →
          e.depth ≤ max 1 c.parameters.maxDepth.toNat ∧
          e.size ≤ 2 ^ max 1 c.parameters.maxDepth.toNat - 1) ↔
      ¬c.parameters.leafWeight ≤ coarseWeight := by
  have cap : c.levelCap 1 = max 1 c.parameters.maxDepth.toNat := by
    unfold levelCap
    omega
  constructor
  · intro all coarse
    exact (all Constant ones).2.1 (tree_ones_of_coarse coarse _ 1)
  · intro h σ _ s
    have capped : Yields (c.freshTree : Draw σ Expr) _ (· ≠ .tooDeep) :=
      yields_tree_capped (admitsRanges_of_unbounded (by decide)) h _ Nat.one_pos levelCap_one_le
    rw [cap] at capped
    refine ⟨fun levels enough => ?_, fun failed => capped.error failed rfl, fun e s' run => ?_⟩
    · unfold freshTree
      rw [tree_congr h Nat.one_pos (cap.trans_le enough) levelCap_one_le]
    · obtain ⟨depth, size⟩ := capped.ok run
      exact ⟨depth, by omega⟩

/-- Parameters under which only inputs have a weight, the least there is, and a single level is
asked for. -/
def coarseParameters : Parameters :=
  { Parameters.standard with
    literalWeight := 0.0
    inputWeight := 5e-324
    binaryWeight := 0.0
    maxDepth := 1 }

def coarseContext : Context := ⟨Dataset.sample, coarseParameters, by decide +kernel⟩

/-- A draw rounded up to the weight of the leaves gives a binary node at the greatest depth. -/
theorem freshTree_exceeds_cap :
    Context.build Dataset.sample coarseParameters = .ok coarseContext ∧
      coarseParameters.maxDepth = 1 ∧
      (coarseContext.freshTree
          (Script.ofWords #[4294967295, 4294967295, 0, 0, 0, 0, 0, 0, 0])).map (·.1.depth)
        = .ok 2 := by
  exact ⟨coarseContext.build_eq, rfl, by decide +kernel⟩

end SymbolicRegression.Mutation.Context
