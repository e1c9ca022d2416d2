import GbPlay.Tools.Tetris

/-!
# The generators of the server and of the TCP serial bridge

`generateGarbageLines` and `generatePieces` of `tetris.ts`, and the tables of
`TetrisLinkInitializer`: the one looks back into the list of the pieces, the other
carries the last two pieces along.
-/

namespace GbPlay.Tools.Tetris

open GbPlay.Library.Sampling
open GbPlay.Server.Client (Byte)
open GbPlay.Server.Tetris.Data

/-! ## The same samplers -/

theorem garbageTiles_eq (n : Nat) (ds : Draws) : garbageTiles n ds = garbageCells n ds := by
  induction n generalizing ds with
  | zero => rfl
  | succ n ih =>
      rw [garbageTiles, garbageCells, ih, ih]
      rfl

theorem choosePiece_eq (prevPiece1 prevPiece2 : Byte) (n : Nat) (nextPiece : Byte) (ds : Draws) :
    choosePiece prevPiece1 prevPiece2 n nextPiece ds =
      attempts prevPiece1 prevPiece2 n nextPiece ds := by
  induction n generalizing nextPiece ds with
  | zero => rfl
  | succ n ih =>
      simp only [choosePiece, attempts, ih]
      exact if_congr decide_eq_true_iff.symm rfl rfl

@[simp] theorem prevPiece_append_one (pieces : List Byte) (b : Byte) :
    prevPiece (pieces ++ [b]) 1 = b := by
  simp [prevPiece]

@[simp] theorem prevPiece_append_two (pieces : List Byte) (b : Byte) :
    prevPiece (pieces ++ [b]) 2 = prevPiece pieces 1 := by
  simp [prevPiece]

/-- The list holds what the variables hold. -/
theorem appendPieces_eq (n : Nat) (pieces : List Byte) (ds : Draws) :
    appendPieces n pieces ds =
      (pieces ++ (nextPieces n (prevPiece pieces 1) (prevPiece pieces 2) ds).1,
        (nextPieces n (prevPiece pieces 1) (prevPiece pieces 2) ds).2) := by
  induction n generalizing pieces ds with
  | zero => simp [appendPieces, nextPieces]
  | succ n ih => simp [appendPieces, nextPieces, ih, choosePiece_eq]

theorem appendPieces_nil (n : Nat) : appendPieces n [] = nextPieces n 0 0 := by
  funext ds
  exact appendPieces_eq n [] ds

/-! ## What a piece is drawn from -/

/-- The test has failed for the draws before the one that is taken. -/
theorem not_isAccepted_of_lt_taken {prevPiece1 prevPiece2 : Byte} {n j : Nat} {ds : Draws}
    (h : j < taken prevPiece1 prevPiece2 n ds) :
    isAccepted prevPiece1 prevPiece2 (candidate (ds j).piece) = false := by
  induction n generalizing j ds with
  | zero => cases h
  | succ n ih =>
      rw [taken] at h
      split at h
      · cases h
      · rename_i hnot
        cases j with
        | zero => exact Bool.eq_false_iff.mpr hnot
        | succ j =>
            have hj : isAccepted prevPiece1 prevPiece2 (candidate (ds.skip 1 j).piece) = false :=
              ih (by omega)
            rwa [Draws.skip, Nat.add_comm] at hj

theorem taken_le (prevPiece1 prevPiece2 : Byte) (n : Nat) (ds : Draws) :
    taken prevPiece1 prevPiece2 n ds ≤ n := by
  induction n generalizing ds with
  | zero => exact Nat.le_refl 0
  | succ n ih =>
      have hrest := ih (ds.skip 1)
      rw [taken]
      split <;> omega

/-- If it fails for the one that is taken too, there were no attempts left. -/
theorem taken_eq_of_not_isAccepted {prevPiece1 prevPiece2 : Byte} {n : Nat} {ds : Draws}
    (h : isAccepted prevPiece1 prevPiece2
      (candidate (ds (taken prevPiece1 prevPiece2 n ds)).piece) = false) :
    taken prevPiece1 prevPiece2 n ds = n := by
  induction n generalizing ds with
  | zero => rfl
  | succ n ih =>
      rw [taken] at h ⊢
      split at h
      · rename_i haccepted
        rw [haccepted] at h
        cases h
      · rename_i hnot
        rw [if_neg hnot, Nat.add_comm]
        exact congrArg (· + 1) (ih h)

/-- A third equal piece never passes the test. -/
theorem not_isAccepted_self (n : Fin 7) :
    isAccepted (candidate n) (candidate n) (candidate n) = false := by
  revert n
  decide

/-- A piece is taken from the draws from `first` on, and those for the following piece
begin at `next`. -/
structure Picks (prevPiece1 prevPiece2 : Byte) (ds : Draws) (first next : Nat) (piece : Byte) :
    Prop where
  few : first < next ∧ next ≤ first + 3
  piece_eq : piece = candidate (ds (next - 1)).piece
  failed : ∀ i, first ≤ i → i + 1 < next →
    isAccepted prevPiece1 prevPiece2 (candidate (ds i).piece) = false
  passed : isAccepted prevPiece1 prevPiece2 piece = true ∨ next = first + 3

variable {prevPiece1 prevPiece2 piece : Byte} {ds : Draws} {first next : Nat}

theorem picks_taken (prevPiece1 prevPiece2 : Byte) (ds : Draws) :
    Picks prevPiece1 prevPiece2 ds 0 (taken prevPiece1 prevPiece2 2 ds + 1)
      (candidate (ds (taken prevPiece1 prevPiece2 2 ds)).piece) := by
  have hle := taken_le prevPiece1 prevPiece2 2 ds
  refine ⟨by omega, rfl, fun i _ hi => ?_, ?_⟩
  · exact not_isAccepted_of_lt_taken (Nat.lt_of_succ_lt_succ hi)
  · apply Classical.or_iff_not_imp_left.mpr
    intro hnot
    rw [taken_eq_of_not_isAccepted (Bool.eq_false_iff.mpr hnot)]

theorem Picks.shift {k : Nat} (h : Picks prevPiece1 prevPiece2 (ds.skip k) first next piece) :
    Picks prevPiece1 prevPiece2 ds (k + first) (k + next) piece := by
  obtain ⟨hfew, rfl, hfailed, hpassed⟩ := h
  refine ⟨by omega, ?_, fun i hfirst hi => ?_, ?_⟩
  · rw [Nat.add_sub_assoc (by omega)]
    rfl
  · obtain ⟨j, rfl⟩ := Nat.exists_eq_add_of_le (Nat.le_trans (Nat.le_add_right k first) hfirst)
    exact hfailed j (by omega) (by omega)
  · exact hpassed.imp_right fun hnext => by omega

/-- Three equal pieces. -/
theorem Picks.repeats (h : Picks piece piece ds first next piece) :
    next = first + 3 ∧
      ∀ j < 3, isAccepted piece piece (candidate (ds (first + j)).piece) = false := by
  have hself : isAccepted piece piece piece = false := by
    rw [h.piece_eq]
    exact not_isAccepted_self _
  have hnext : next = first + 3 := by
    apply h.passed.resolve_left
    rw [hself]
    exact Bool.false_ne_true
  refine ⟨hnext, fun j hj => ?_⟩
  by_cases hlast : j = 2
  · have hpiece : piece = candidate (ds (first + j)).piece := by
      rw [h.piece_eq, hnext, hlast]
      rfl
    rwa [← hpiece]
  · exact h.failed (first + j) (by omega) (by omega)

theorem nextPieces_succ (n : Nat) (prevPiece1 prevPiece2 : Byte) (ds : Draws) :
    (nextPieces (n + 1) prevPiece1 prevPiece2 ds).1 =
      let i := taken prevPiece1 prevPiece2 2 ds
      candidate (ds i).piece ::
        (nextPieces n (candidate (ds i).piece) prevPiece1 (ds.skip (i + 1))).1 := by
  rw [nextPieces, attempts_succ]

/-- Piece `i` of a list that has the two previous pieces in front of it. -/
def PicksAt (ds : Draws) (padded : List Byte) (position : Nat → Nat) (i : Nat) : Prop :=
  ∃ piece1 piece2 piece, padded[i]? = some piece2 ∧ padded[i + 1]? = some piece1 ∧
    padded[i + 2]? = some piece ∧ Picks piece1 piece2 ds (position i) (position (i + 1)) piece

theorem picksAt_nextPieces {n i : Nat} (hi : i < n) (prevPiece1 prevPiece2 : Byte) (ds : Draws) :
    PicksAt ds (prevPiece2 :: prevPiece1 :: (nextPieces n prevPiece1 prevPiece2 ds).1)
      (fun i => pieceDraws i prevPiece1 prevPiece2 ds) i := by
  induction i generalizing n prevPiece1 prevPiece2 ds with
  | zero =>
      obtain ⟨n, rfl⟩ := Nat.exists_eq_add_one_of_ne_zero (Nat.ne_of_gt hi)
      rw [nextPieces_succ]
      exact ⟨prevPiece1, prevPiece2, _, rfl, rfl, rfl, picks_taken prevPiece1 prevPiece2 ds⟩
  | succ i ih =>
      obtain ⟨n, rfl⟩ := Nat.exists_eq_add_one_of_ne_zero (Nat.ne_of_gt (Nat.zero_lt_of_lt hi))
      obtain ⟨piece1, piece2, piece, hpiece2, hpiece1, hpiece, hpicks⟩ :=
        ih (Nat.lt_of_succ_lt_succ hi) (candidate (ds (taken prevPiece1 prevPiece2 2 ds)).piece)
          prevPiece1 (ds.skip (taken prevPiece1 prevPiece2 2 ds + 1))
      rw [nextPieces_succ]
      exact ⟨piece1, piece2, piece, hpiece2, hpiece1, hpiece, hpicks.shift⟩

theorem take_nextPieces {n i : Nat} (hi : i ≤ n) (prevPiece1 prevPiece2 : Byte) (ds : Draws) :
    (nextPieces n prevPiece1 prevPiece2 ds).1.take i =
      (nextPieces i prevPiece1 prevPiece2 ds).1 := by
  induction i generalizing n prevPiece1 prevPiece2 ds with
  | zero => rfl
  | succ i ih =>
      obtain ⟨n, rfl⟩ := Nat.exists_eq_add_one_of_ne_zero (Nat.ne_of_gt (Nat.zero_lt_of_lt hi))
      rw [nextPieces_succ, nextPieces_succ, List.take_succ_cons]
      exact congrArg _ (ih (Nat.le_of_succ_le_succ hi) _ _ _)

theorem multiple_of_mem_nextPieces {n : Nat} {b : Byte}
    (h : b ∈ (nextPieces n prevPiece1 prevPiece2 ds).1) : ∃ m ≤ 6, b.toNat = 4 * m := by
  induction n generalizing prevPiece1 prevPiece2 ds with
  | zero => cases h
  | succ n ih =>
      rw [nextPieces_succ] at h
      rcases List.mem_cons.mp h with rfl | h
      · generalize (ds _).piece = m
        refine ⟨m, Nat.le_of_lt_succ m.isLt, ?_⟩
        revert m
        decide
      · exact ih h

/-! ## The contract -/

/-- Both generators have used the first `position i` draws after `i` pieces. -/
structure Drawn (ds : Draws) (pieces : List Byte) (position : Nat → Nat) : Prop where
  server : ∀ i ≤ 256, (appendPieces i [] ds).1 = pieces.take i ∧
    Consumes (appendPieces i []) ds (position i)
  bridge : ∀ i ≤ 256, (nextPieces i 0 0 ds).1 = pieces.take i ∧
    Consumes (nextPieces i 0 0) ds (position i)
  few : ∀ i < 256, position i < position (i + 1) ∧ position (i + 1) ≤ position i + 3
  multiple : ∀ b ∈ pieces, ∃ n ≤ 6, b.toNat = 4 * n
  repeats : ∀ i p, (0 :: 0 :: pieces)[i]? = some p → (0 :: 0 :: pieces)[i + 1]? = some p →
    (0 :: 0 :: pieces)[i + 2]? = some p → position (i + 1) = position i + 3 ∧
      ∀ j < 3, isAccepted p p (candidate (ds (position i + j)).piece) = false

structure GeneratorsAgree (ds : Draws) : Prop where
  garbage : generateGarbageLines ds = garbageCells 100 ds
  garbageDraws : ∃ n, Consumes generateGarbageLines ds n ∧ Consumes (garbageCells 100) ds n
  pieces : generatePieces ds = nextPieces 256 0 0 ds
  drawn : ∃ position, Drawn ds (generatePieces ds).1 position
  tables : getLinkInitializer ds =
    ({ initialGarbage := (generateGarbageLines ds).1,
       pieces := (generatePieces (generateGarbageLines ds).2).1 },
      (generatePieces (generateGarbageLines ds).2).2)

theorem generatePieces_eq (ds : Draws) : generatePieces ds = nextPieces 256 0 0 ds :=
  congrFun (appendPieces_nil 256) ds

theorem drawn_nextPieces (ds : Draws) :
    Drawn ds (nextPieces 256 0 0 ds).1 fun i => pieceDraws i 0 0 ds := by
  have hbridge : ∀ i ≤ 256, (nextPieces i 0 0 ds).1 = (nextPieces 256 0 0 ds).1.take i ∧
      Consumes (nextPieces i 0 0) ds (pieceDraws i 0 0 ds) := fun i hi =>
    ⟨(take_nextPieces hi 0 0 ds).symm, consumes_nextPieces i 0 0 ds⟩
  refine ⟨fun i hi => ?_, hbridge, fun i hi => ?_, fun b => multiple_of_mem_nextPieces, ?_⟩
  · rw [appendPieces_nil]
    exact hbridge i hi
  · obtain ⟨_, _, _, _, _, _, hpicks⟩ := picksAt_nextPieces hi 0 0 ds
    exact hpicks.few
  · intro i p hpiece2 hpiece1 hpiece
    have hi : i < 256 := by
      have hlt := (List.getElem?_eq_some_iff.mp hpiece).1
      rw [List.length_cons, List.length_cons, length_nextPieces] at hlt
      omega
    obtain ⟨piece1, piece2, piece, hpiece2', hpiece1', hpiece', hpicks⟩ :=
      picksAt_nextPieces hi 0 0 ds
    obtain rfl : piece2 = p := Option.some.inj (hpiece2'.symm.trans hpiece2)
    obtain rfl : piece1 = piece2 := Option.some.inj (hpiece1'.symm.trans hpiece1)
    obtain rfl : piece = piece1 := Option.some.inj (hpiece'.symm.trans hpiece)
    exact hpicks.repeats

/-- Whatever the draws are, the two generators use the same ones for the same lists; they
allow for a third equal piece only if it has failed the test three times. -/
theorem generatorsAgree (ds : Draws) : GeneratorsAgree ds := by
  have hgarbage : generateGarbageLines = garbageCells 100 := funext (garbageTiles_eq 100)
  refine ⟨congrFun hgarbage ds, ⟨cellDraws 100 ds, ?_, ?_⟩, generatePieces_eq ds, ?_, ?_⟩
  · rw [hgarbage]
    exact consumes_garbageCells 100 ds
  · exact consumes_garbageCells 100 ds
  · rw [generatePieces_eq]
    exact ⟨_, drawn_nextPieces ds⟩
  · rw [generatePieces_eq, hgarbage]
    rfl

end GbPlay.Tools.Tetris
