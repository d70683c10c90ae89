import Mathlib
import Nonlinear.Factorization
import Nonlinear.Proofs.Scalar.Exact

/-! # Elimination in exact arithmetic

After every column the two triangles that share a matrix multiply to the given matrix, with its
rows in the order that the exchanges have led to.  At the end they are the factors of a triangular
factorization; a column without a pivot only puts a zero on the diagonal.
-/

namespace Nonlinear

open Scalar Matrix

theorem get_swap {α : Type} {n : Nat} (v : Vector α n) (i p r : Fin n) :
    (v.swap i p i.isLt p.isLt).get r = v.get (Equiv.swap i p r) := by
  simp only [Vector.get_eq_getElem, Vector.getElem_swap, Equiv.swap_apply_def, Fin.ext_iff]
  split_ifs <;> rfl

namespace DenseMatrix

variable {α : Type} {m n : Nat}

def toMatrix (a : DenseMatrix α m n) : Matrix (Fin m) (Fin n) α := Matrix.of a.entry

@[simp]
theorem toMatrix_apply (a : DenseMatrix α m n) (i : Fin m) (j : Fin n) :
    a.toMatrix i j = a.entry i j := rfl

theorem entry_swap (a : DenseMatrix α n m) (i p r : Fin n) (c : Fin m) :
    entry (a.swap i p i.isLt p.isLt) r c = a.entry (Equiv.swap i p r) c :=
  congrArg (Vector.get · c) (get_swap a i p r)

end DenseMatrix

namespace Factorization

section Columns

variable {β : Type} {n : Nat} {P : Nat → β → Prop}

/-- What holds at first, and is carried over each column from left to right, holds at last. -/
theorem foldl_columns {f : β → Fin n → β} {b : β} (start : P 0 b)
    (step : ∀ (i : Fin n) b, P i b → P (i + 1) (f b i)) : P n ((List.finRange n).foldl f b) := by
  induction n with
  | zero => exact start
  | succ n ih =>
      rw [List.finRange_succ_last, List.foldl_append, List.foldl_map]
      apply step (Fin.last n)
      exact ih fun i b h => step i.castSucc b h

/-- The same for a pass from right to left in which every step succeeds. -/
theorem foldlM_columns_reverse {f : β → Fin n → Option β} {b : β} (start : P n b)
    (step : ∀ (i : Fin n) b, P (i + 1) b → ∃ b', f b i = some b' ∧ P i b') :
    ∃ b', (List.finRange n).reverse.foldlM f b = some b' ∧ P 0 b' := by
  induction n generalizing b with
  | zero => exact ⟨b, rfl, start⟩
  | succ n ih =>
      obtain ⟨b', first, holds⟩ := step (Fin.last n) b start
      obtain ⟨c, rest, last⟩ := ih holds fun i b h => step i.castSucc b h
      refine ⟨c, ?_, last⟩
      rw [List.finRange_succ_last, List.reverse_append, List.reverse_singleton,
        List.singleton_append, List.foldlM_cons, first, ← List.map_reverse]
      exact List.foldlM_map.trans rest

end Columns

variable {n : Nat}

/-- The order of the rows after some exchanges. -/
def rowOrder (swaps : List (Fin n × Fin n)) : Equiv.Perm (Fin n) :=
  (swaps.map fun (i, p) => Equiv.swap i p).prod

theorem rowOrder_concat (swaps : List (Fin n × Fin n)) (i p : Fin n) :
    rowOrder (swaps ++ [(i, p)]) = rowOrder swaps * Equiv.swap i p := by
  simp [rowOrder]

section Parts

variable {K : Type} [Field K]

/-- A lower triangle with ones on the diagonal, taken from the first `k` columns of a matrix.  The
other columns are those of the identity. -/
def lowerPart (a : DenseMatrix K n n) (k : Nat) : Matrix (Fin n) (Fin n) K :=
  .of fun r c => if r = c then 1 else if c < r ∧ c.val < k then a.entry r c else 0

/-- A matrix without the entries that its first `k` columns have below the diagonal. -/
def upperPart (a : DenseMatrix K n n) (k : Nat) : Matrix (Fin n) (Fin n) K :=
  .of fun r c => if c < r ∧ c.val < k then 0 else a.entry r c

/-- The entries of a column below the diagonal. -/
def multipliers (a : DenseMatrix K n n) (i : Fin n) : Fin n → K :=
  fun r => if i < r then a.entry r i else 0

/-- A matrix leaves a vector as it is whose components only meet columns of the identity. -/
theorem mulVec_eq_self {W : Matrix (Fin n) (Fin n) K} {v : Fin n → K}
    (unit : ∀ j, v j ≠ 0 → ∀ r, W r j = if r = j then 1 else 0) : W *ᵥ v = v := by
  ext r
  have terms : ∀ j, W r j * v j = if r = j then v j else 0 := by
    intro j
    by_cases zero : v j = 0
    · simp [zero]
    · simp [unit j zero r]
  simp [mulVec, dotProduct, terms]

/-- To add a vector to a column is to undo one step of a substitution. -/
theorem mulVec_of_column {W W' : Matrix (Fin n) (Fin n) K} {w b b' : Fin n → K} (i : Fin n)
    (column : ∀ r c, W' r c = W r c + if c = i then w r else 0) (fixed : W *ᵥ w = w)
    (undo : ∀ r, b r = b' r + b' i * w r) : W' *ᵥ b' = W *ᵥ b := by
  have added : W' *ᵥ b' = W *ᵥ b' + b' i • w := by
    ext r
    simp only [mulVec, dotProduct, column, add_mul, ite_mul, zero_mul, Finset.sum_add_distrib,
      Finset.sum_ite_eq', Finset.mem_univ, if_true, Pi.add_apply, Pi.smul_apply, smul_eq_mul]
    rw [mul_comm]
  have undone : b = b' + b' i • w := funext undo
  rw [added, undone, mulVec_add, mulVec_smul, fixed]

variable {a : DenseMatrix K n n} {i p : Fin n}

theorem lowerPart_zero (a : DenseMatrix K n n) : lowerPart a 0 = 1 := by
  ext r c
  simp [lowerPart, Matrix.one_apply]

theorem upperPart_zero (a : DenseMatrix K n n) : upperPart a 0 = a.toMatrix := by
  ext r c
  simp [upperPart]

/-- One step of a substitution, with the multipliers of column `i`. -/
theorem lowerPart_mulVec_clear (a : DenseMatrix K n n) (i : Fin n) (b : Fin n → K) :
    lowerPart a (i + 1) *ᵥ (fun r => if i < r then b r - a.entry r i * b i else b r) =
      lowerPart a i *ᵥ b := by
  apply mulVec_of_column (w := multipliers a i) i
  · intro r c
    simp only [lowerPart, multipliers, of_apply]
    split_ifs <;> grind
  · -- the multipliers only meet columns of the identity
    apply mulVec_eq_self
    intro j nonzero r
    have below : i < j := by
      by_contra above
      exact nonzero (if_neg above)
    simp only [lowerPart, of_apply]
    split_ifs <;> grind
  · intro r
    simp only [multipliers, lt_irrefl, if_false]
    split_ifs <;> ring

/-- Exchanging two rows that elimination has not come to exchanges rows and columns of the lower
triangle, since the columns of that are those of the identity from there on. -/
theorem lowerPart_swap (a : DenseMatrix K n n) (later : i ≤ p) :
    lowerPart (a.swap i p i.isLt p.isLt) i =
      (lowerPart a i).submatrix (Equiv.swap i p) (Equiv.swap i p) := by
  ext r c
  simp only [lowerPart, of_apply, submatrix_apply, DenseMatrix.entry_swap,
    EmbeddingLike.apply_eq_iff_eq]
  simp only [Equiv.swap_apply_def]
  split_ifs <;> grind

theorem upperPart_swap (a : DenseMatrix K n n) (later : i ≤ p) :
    upperPart (a.swap i p i.isLt p.isLt) i = (upperPart a i).submatrix (Equiv.swap i p) id := by
  ext r c
  simp only [upperPart, of_apply, submatrix_apply, DenseMatrix.entry_swap, id]
  simp only [Equiv.swap_apply_def]
  split_ifs <;> grind

theorem product_swap (a : DenseMatrix K n n) (later : i ≤ p) :
    lowerPart (a.swap i p i.isLt p.isLt) i * upperPart (a.swap i p i.isLt p.isLt) i =
      (lowerPart a i * upperPart a i).submatrix (Equiv.swap i p) id := by
  rw [lowerPart_swap a later, upperPart_swap a later, submatrix_mul_equiv]

/-- A column that is zero from the diagonal down needs no elimination. -/
theorem product_skip (zero : ∀ r, i ≤ r → a.entry r i = 0) :
    lowerPart a (i + 1) * upperPart a (i + 1) = lowerPart a i * upperPart a i := by
  have column (r c : Fin n) (below : c < r) (here : c.val < i.val + 1) (new : ¬ c.val < i.val) :
      a.entry r c = 0 := by
    obtain rfl : c = i := Fin.ext (by omega)
    exact zero r below.le
  have lower : lowerPart a (i + 1) = lowerPart a i := by
    ext r c
    simp only [lowerPart, of_apply]
    split_ifs <;> grind
  have upper : upperPart a (i + 1) = upperPart a i := by
    ext r c
    simp only [upperPart, of_apply]
    split_ifs <;> grind
  rw [lower, upper]

/-- The first `k` columns are eliminated: the triangles multiply to the given matrix, with its rows
in the order of the exchanges. -/
def Factors (a : DenseMatrix K n n) (k : Nat) (s : Factorization K n) : Prop :=
  lowerPart s.factors k * upperPart s.factors k = a.toMatrix.submatrix (rowOrder s.swaps) id

theorem factors_start (a : DenseMatrix K n n) : Factors a 0 ⟨a, []⟩ := by
  show lowerPart a 0 * upperPart a 0 = a.toMatrix.submatrix id id
  rw [lowerPart_zero, upperPart_zero, one_mul, submatrix_id_id]

end Parts

variable {K : Type} [Field K] [LinearOrder K] [ExactConstants K]

theorem foldl_pivot (a : DenseMatrix K n n) (i : Fin n) (rows : List (Fin n)) (first : Fin n) :
    let p := rows.foldl
      (fun p r => if magnitude (a.entry p i) < magnitude (a.entry r i) then r else p) first
    p ∈ first :: rows ∧ ∀ r ∈ first :: rows, |a.entry r i| ≤ |a.entry p i| := by
  induction rows generalizing first with
  | nil => simp
  | cons row rows ih =>
      rw [List.foldl_cons]
      split
      next more =>
        obtain ⟨mem, most⟩ := ih row
        have more : |a.entry first i| < |a.entry row i| := more
        refine ⟨List.mem_cons_of_mem _ mem, ?_⟩
        rw [List.forall_mem_cons]
        exact ⟨more.le.trans (most row List.mem_cons_self), most⟩
      next less =>
        obtain ⟨mem, most⟩ := ih first
        have most_first := most first List.mem_cons_self
        refine ⟨?_, ?_⟩
        · rw [List.mem_cons] at mem ⊢
          exact mem.imp_right (List.mem_cons_of_mem _)
        · intro r here
          rcases List.mem_cons.mp here with rfl | here
          · exact most_first
          · rcases List.mem_cons.mp here with rfl | here
            · exact (le_of_not_gt less).trans most_first
            · exact most r (List.mem_cons_of_mem _ here)

theorem le_pivotRow (a : DenseMatrix K n n) (i : Fin n) : i ≤ pivotRow a i := by
  obtain ⟨mem, -⟩ := foldl_pivot a i ((List.finRange n).filter (i < ·)) i
  rcases List.mem_cons.mp mem with same | below
  · exact same.ge
  · exact (of_decide_eq_true (List.mem_filter.mp below).2).le

theorem abs_le_pivotRow (a : DenseMatrix K n n) {i r : Fin n} (below : i ≤ r) :
    |a.entry r i| ≤ |a.entry (pivotRow a i) i| := by
  obtain ⟨-, most⟩ := foldl_pivot a i ((List.finRange n).filter (i < ·)) i
  apply most
  rcases below.eq_or_lt with rfl | below
  · exact List.mem_cons_self
  · exact List.mem_cons_of_mem _ (List.mem_filter.mpr ⟨List.mem_finRange r, decide_eq_true below⟩)

variable [IsStrictOrderedRing K]

theorem entry_clearColumn (a : DenseMatrix K n n) (i r c : Fin n) :
    (clearColumn a i).entry r c =
      if i < r ∧ i ≤ c then
        if c = i then a.entry r i / a.entry i i
        else a.entry r c - a.entry r i / a.entry i i * a.entry i c
      else a.entry r c := by
  simp only [clearColumn, DenseMatrix.entry_ofFn, literal_one]
  split
  · split
    · exact mul_one_div _ _
    · calc -a.entry i c * (a.entry r i * (1 / a.entry i i)) + a.entry r c
        _ = a.entry r c - a.entry r i / a.entry i i * a.entry i c := by ring
  · rfl

/-- Each column of the upper triangle takes one step of the substitution by which the multipliers
come into the lower one. -/
theorem product_clear {a : DenseMatrix K n n} {i : Fin n} (pivot : a.entry i i ≠ 0) :
    lowerPart (clearColumn a i) (i + 1) * upperPart (clearColumn a i) (i + 1) =
      lowerPart a i * upperPart a i := by
  have earlier : lowerPart (clearColumn a i) i = lowerPart a i := by
    ext r c
    simp only [lowerPart, of_apply, entry_clearColumn]
    split_ifs <;> grind
  -- a column that is already cleared has a zero in row `i`, so the step does not change it
  have reduced (c : Fin n) : (fun r => upperPart (clearColumn a i) (i + 1) r c) = fun r =>
      if i < r then upperPart a i r c - (clearColumn a i).entry r i * upperPart a i i c
      else upperPart a i r c := by
    ext r
    simp only [upperPart, of_apply, entry_clearColumn]
    split_ifs <;> grind
  ext r c
  show (lowerPart (clearColumn a i) (i + 1) *ᵥ
    fun r => upperPart (clearColumn a i) (i + 1) r c) r =
      (lowerPart a i *ᵥ fun r => upperPart a i r c) r
  rw [reduced, lowerPart_mulVec_clear, earlier]

theorem Factors.eliminate {a : DenseMatrix K n n} {s : Factorization K n} {i : Fin n}
    (h : Factors a i s) : Factors a (i + 1) (s.eliminate i) := by
  rw [Factors] at h
  simp only [Factorization.eliminate]
  split
  next none =>
    have zero : s.factors.entry (pivotRow s.factors i) i = 0 :=
      (beq_exact_iff.mp none).trans literal_zero
    have column : ∀ r, i ≤ r → s.factors.entry r i = 0 := by
      intro r below
      have most := abs_le_pivotRow s.factors below
      rw [zero, abs_zero] at most
      exact abs_nonpos_iff.mp most
    exact (product_skip column).trans h
  next some =>
    have later := le_pivotRow s.factors i
    rw [Factors, product_clear, product_swap _ later, h, rowOrder_concat]
    · rfl
    · rw [DenseMatrix.entry_swap, Equiv.swap_apply_left]
      intro zero
      exact some (beq_exact_iff.mpr (zero.trans literal_zero.symm))

/-- Elimination ends in a triangular factorization of every square matrix, regular or not. -/
theorem factors_of (a : DenseMatrix K n n) : Factors a n (of a) :=
  foldl_columns (P := Factors a) (factors_start a) fun _ _ h => h.eliminate

end Factorization

end Nonlinear
