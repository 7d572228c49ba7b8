import LinearAssignment.Proofs.Refusal

/-! Which tables of finite and forbidden costs are solved. Two differences are taken before the
search, and nothing keeps them from overflowing. -/

set_option autoImplicit false

namespace LinearAssignment

variable {w : Width}

namespace Board

theorem shift_refused (b left : Board Float) (why : Error)
    (refused : b.shift = .error (.refused left why)) : why = .nothingUncovered := by
  obtain ⟨_, refused⟩ := Halt.lift_then_refused _ _ _ _ refused
  obtain ⟨least, refused⟩ := Halt.lift_then_refused _ _ _ _ refused
  cases Halt.require_then_refused _ _ _ _ _ _ refused with
  | inl cause => exact cause
  | inr refused =>
      obtain ⟨_, refused⟩ := Halt.lift_then_refused _ _ _ _ refused
      obtain ⟨_, refused⟩ := Halt.lift_then_refused _ _ _ _ refused
      cases refused

end Board

namespace Stage

theorem step_refused (s : Stage) (sound : s.Sound) (left : Board Float) (why : Error)
    (refused : s.board.step s.phase = .error (.refused left why)) : why = .nothingUncovered := by
  by_cases shifts : s.phase = .shift
  · obtain ⟨phase, b⟩ := s
    cases shifts
    cases bind_error _ _ _ refused with
    | inl shifted => exact b.shift_refused left why shifted
    | inr facts =>
        obtain ⟨_, _, refused⟩ := facts
        cases refused
  · obtain ⟨t, next⟩ := s.goes_on sound shifts
    exact absurd (next.symm.trans refused) (by simp)

-- The induction is on the phases that the search is allowed, each of which leaves a sound search.
theorem run_refused (phases : Nat) (s : Stage) (tally : Tally) (sound : s.Sound)
    (left : Board Float) (why : Error)
    (refused : Board.runFrom phases s.phase tally s.board = .error (.refused left why)) :
    why = .nothingUncovered := by
  induction phases generalizing s tally with
  | zero =>
      obtain ⟨phase, b⟩ := s
      cases phase <;> cases refused
  | succ n ih =>
      by_cases done : s.phase = .finished
      · obtain ⟨phase, b⟩ := s
        cases done
        cases refused
      · rw [Board.runFrom] at refused
        · obtain ⟨_, refused⟩ := Halt.lift_then_refused _ _ _ _ refused
          cases bind_error _ _ _ refused with
          | inl stepped => exact s.step_refused sound left why stepped
          | inr facts =>
              obtain ⟨⟨b, next⟩, stepped, refused⟩ := facts
              exact ih ⟨next, b⟩ _ (next_sound s ⟨next, b⟩ sound stepped).1 refused
        · exact done

end Stage

namespace Pricing

open Binary64

-- Where loading and lowering cannot overflow. When the greatest total is sought a difference that
-- does overflow is taken for a forbidden pair, but only in a table that has one.
def Sheltered (options : Options) (values : Array Float) : Prop :=
  if options.maximize then ∃ v ∈ values, v.isFinite = false
  else ∀ v ∈ values, v.isFinite → 0 ≤ value v

theorem price_positive (options : Options) (values : Array Float) (some : 0 < values.size) :
    (price options values).isFinite ∧ 0 < value (price options values) := forbidden_finite _ _ some

theorem settled_sheltered (options : Options) (values : Array Float)
    (some : ∃ v ∈ values, v.isFinite) (sheltered : Sheltered options values) (v : Float)
    (member : v ∈ values) :
    (settledCost options values v).isFinite ∧ 0 ≤ value (settledCost options values v) := by
  obtain ⟨finitePrice, positivePrice⟩ :=
    price_positive options values (Array.size_pos_of_mem member)
  cases sense : options.maximize with
  | false =>
      have nonnegative : ∀ v ∈ values, v.isFinite → 0 ≤ value v := by
        simpa [Sheltered, sense] using sheltered
      by_cases finite : v.isFinite
      · rw [settled_taken options values v finite sense]
        exact ⟨finite, nonnegative v member finite⟩
      · rw [settled_nonfinite options values v member (by simpa using finite)]
        exact ⟨finitePrice, positivePrice.le⟩
  | true =>
      obtain ⟨u, memberToo, infinite⟩ : ∃ u ∈ values, u.isFinite = false := by
        simpa [Sheltered, sense] using sheltered
      obtain ⟨finiteGreatest, _, greatest⟩ := greatest_finite values some
      by_cases taken : v.isFinite ∧ (greatestFinite values - v).isFinite
      · obtain ⟨finite, finiteTaken⟩ := taken
        rw [settled_flipped options values v finite sense finiteTaken]
        have number := lowered_nonnegative _ v (finite_number _ finiteGreatest) finite
          (by rw [height_finite _ finite, height_finite _ finiteGreatest];
              exact_mod_cast greatest v member finite)
        exact ⟨finiteTaken, (nonnegative_finite _ finiteTaken).mp number⟩
      · have priced : settledCost options values v = price options values := by
          have barred : values.all Float.isFinite = false :=
            Array.all_eq_false'.mpr ⟨u, memberToo, by simp [infinite]⟩
          by_cases finite : v.isFinite
          · simp [settledCost, sense, barred, finite, not_and.mp taken finite]
          · exact settled_nonfinite options values v member (by simpa using finite)
        rw [priced]
        exact ⟨finitePrice, positivePrice.le⟩

end Pricing

namespace Board

theorem lowered_stays_finite (b : Board Float) (sized : b.Sized) (plain : b.Plain) :
    ∀ cost ∈ b.lowerLines.costs, cost.isFinite := by
  intro cost member
  obtain ⟨i, inside, rfl⟩ := Array.mem_iff_getElem.mp member
  have below : i < b.rows * b.cols := by
    rw [(lowered_sized b sized).costs] at inside
    exact inside
  obtain ⟨insideRow, insideColumn, back⟩ := cell_of_position b.rows b.cols i below
  have read := cost_read b.lowerLines _ _ (lowered_sized b sized) insideRow insideColumn
  have place : b.lowerLines.offset (i % b.rows) (i / b.rows) = i := back
  rw [place, Array.getElem?_eq_getElem inside, lowered_cost b sized _ _ insideRow insideColumn]
    at read
  rw [Option.some.inj read]
  obtain ⟨⟨r, c, insideR, insideC, _, attained⟩, finite, lowest⟩ :=
    line_least_attained b sized plain.finite _ _ insideRow insideColumn
  refine Binary64.lowered_finite _ _ (plain.finite _ _ insideRow insideColumn) finite ?_
    (lowest _ _ insideRow insideColumn rfl)
  rw [← attained]
  exact plain.nonnegative r c insideR insideC

theorem sheltered_plain (options : Options) (rows cols : Nat) (values : Array Float)
    (size : values.size = rows * cols) (priced : values.any Float.isFinite)
    (sheltered : Pricing.Sheltered options values) : (loaded options rows cols values).Plain := by
  have some : ∃ v ∈ values, v.isFinite := Array.any_eq_true'.mp priced
  have cell (row col : Nat) (insideRow : row < rows) (insideColumn : col < cols) :=
    Pricing.settled_sheltered options values some sheltered _
      (cell_member values rows cols row col size insideRow insideColumn)
  constructor
  all_goals intro row col insideRow insideColumn
  · rw [loaded_cost options rows cols values size row col insideRow insideColumn]
    exact (cell row col insideRow insideColumn).1
  · rw [worthAt, loaded_cost options rows cols values size row col insideRow insideColumn]
    exact (cell row col insideRow insideColumn).2

theorem prepared_finite (options : Options) (rows cols : Nat) (values : Array Float)
    (sheltered : Pricing.Sheltered options values) (start : Board Float)
    (prepared : Prepared options rows cols values start) : ∀ cost ∈ start.costs, cost.isFinite := by
  obtain ⟨size, priced, _⟩ := prepared_reduced options rows cols values start prepared
  rw [(prepared_fresh options rows cols values start prepared).1.costs]
  exact lowered_stays_finite _ (loaded_unmarked options rows cols values size).sized
    (sheltered_plain options rows cols values size priced sheltered)

end Board

namespace Workspace

theorem readied_refusal (options : Options) (p : Problem w) (fits : p.Fits) (complete : p.Complete)
    (passes : ¬ p.Rejected options) (left : Workspace w × Assignment w) (why : Error)
    (refused : readiedSolve (w := w) options p.rows p.cols p.values = .error (.refused left why)) :
    why = .nothingUncovered := by
  cases readied_cases options p complete passes with
  | inl solved =>
      obtain ⟨out, ok⟩ := solved
      exact absurd (ok.symm.trans refused) (by simp)
  | inr searched =>
      obtain ⟨_, _, searches⟩ := searched
      obtain ⟨start, reduce, _, fresh⟩ :=
        Board.reduced _ (Board.loaded_unmarked options p.rows p.cols p.values complete)
      rw [searches] at refused
      cases run : start.run with
      | ok found =>
          obtain ⟨_, ok, _⟩ := found_written options p (.idle w p.rows options.oneBased) fits
            complete (Assignment.holds_free _ p.rows options.oneBased) start found.1
            found.2 reduce run
          exact absurd (ok.symm.trans refused) (by simp)
      | error halt =>
          rw [search_halts options p _ start reduce halt run] at refused
          cases halt with
          | fault fault => cases refused
          | refused board cause =>
              cases refused
              exact Stage.run_refused start.phaseBound ⟨.cover, start⟩ {} fresh board why run

end Workspace

/-- With forbidden pairs allowed for, a table is solved if its costs stay finite before the search,
and otherwise refused for no other reason than that no uncovered cost is finite. -/
theorem solved_without_overflow (w : Width) (mem : Memory) (options : Options) (rows cols : Nat)
    (values : Array Float) (room : mem.Suffices w rows cols) (rowsFit : rows < w.max)
    (colsFit : cols < w.max) (size : values.size = rows * cols)
    (forbids : options.forbidNonFinite = true)
    (counters : min rows cols * (min rows cols + 1) / 2 < 2 ^ 32) :
    ((Pricing.Sheltered options values ∨
          ∀ start, Board.Prepared options rows cols values start →
            ∀ cost ∈ start.costs, cost.isFinite) →
        ∃ report : Assignment w, optimalAssignment mem options rows cols values = .ok report) ∧
      ∀ why, (optimalAssignment mem options rows cols values : Except (Halt Unit) (Assignment w)) =
          .error (.refused () why) →
        why = .nothingUncovered := by
  let p : Problem w := ⟨rows, cols, values⟩
  have passes : ¬ p.Rejected options := by
    intro rejected
    have strict := rejected.strict
    rw [forbids] at strict
    cases strict
  constructor
  · intro safe
    have finite :
        ∀ start, Board.Prepared options rows cols values start →
          ∀ cost ∈ start.costs, cost.isFinite :=
      safe.elim (Board.prepared_finite options rows cols values) id
    obtain ⟨out, ok⟩ :=
      (Workspace.readied_unrefused mem options p room ⟨rowsFit, colsFit⟩ size passes finite).2
        fun start _ prepared => Stage.prepared_counts_fit options rows cols values start prepared
        (finite start prepared) counters
    exact ⟨out.2, Workspace.optimal_opened mem options rows cols values room rowsFit colsFit
      size out.1 out.2 ok⟩
  · intro why refused
    rw [Workspace.optimal_readied mem options rows cols values room rowsFit colsFit size] at refused
    cases result : Workspace.readiedSolve (w := w) options rows cols values with
    | ok out =>
        rw [result] at refused
        cases refused
    | error halt =>
        rw [result] at refused
        cases halt with
        | fault fault => cases refused
        | refused left cause =>
            cases refused
            exact Workspace.readied_refusal options p ⟨rowsFit, colsFit⟩ size passes left why result

theorem solved_without_overflow_flipped :
    ∃ report : Assignment .bits8,
      optimalAssignment ⟨1000⟩ { maximize := true } 2 2 #[1e308, -1e308, Binary64.infinity, 3] =
        .ok report :=
  (solved_without_overflow .bits8 ⟨1000⟩ { maximize := true } 2 2
    #[1e308, -1e308, Binary64.infinity, 3] ⟨by decide, by decide, by decide, by decide⟩ (by decide)
    (by decide) rfl rfl (by decide)).1 (Or.inl ⟨Binary64.infinity, by simp, rfl⟩)

-- Each row is lowered by its first cost, which sends the second one to infinity. The two zeros
-- share a column, and where neither row nor column is covered no finite cost is left.
theorem table_refused_by_overflow :
    (optimalAssignment ⟨1000⟩ {} 2 2 #[-1e308, -1e308, 1e308, 9e307] :
      Except (Halt Unit) (Assignment .bits8)) = .error (.refused () .nothingUncovered) := by
  have refused :
      (match (optimalAssignment ⟨1000⟩ {} 2 2 #[-1e308, -1e308, 1e308, 9e307] :
      Except (Halt Unit) (Assignment .bits8)) with
    | .ok _ => none
    | .error halt => some halt) = some (.refused () .nothingUncovered) := by decide +kernel
  split at refused
  · cases refused
  · cases refused
    assumption

end LinearAssignment
