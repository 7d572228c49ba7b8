import LinearAssignment.Proofs.History

set_option autoImplicit false

namespace LinearAssignment

variable {w : Width}

structure Entry where
  row : Nat
  col : Nat
  value : Float

namespace Entry

def place (rows : Nat) (entry : Entry) : Nat := entry.row + rows * entry.col

def ofColumn (col : Nat) (values : Array Float) : List Entry :=
  values.toList.mapIdx fun row value => ⟨row, col, value⟩

def ofTable (rows : Nat) (values : Array Float) : List Entry :=
  values.toList.mapIdx fun i value => ⟨i % rows, i / rows, value⟩

theorem column_values (col : Nat) (values : Array Float) :
    (ofColumn col values).map value = values.toList := by
  apply List.ext_getElem <;> simp [ofColumn]

theorem table_values (rows : Nat) (values : Array Float) :
    (ofTable rows values).map value = values.toList := by
  apply List.ext_getElem <;> simp [ofTable]

theorem column_places (rows col : Nat) (values : Array Float) (size : values.size = rows) :
    (ofColumn col values).map (place rows) = (List.range rows).map (rows * col + ·) := by
  apply List.ext_getElem
  · simp [ofColumn, size]
  · intro row _ _
    simp [ofColumn, place, Nat.add_comm]

theorem table_places (rows : Nat) (values : Array Float) :
    (ofTable rows values).map (place rows) = List.range values.size := by
  apply List.ext_getElem
  · simp [ofTable]
  · intro i _ _
    simp [ofTable, place, Nat.mod_add_div]

end Entry

namespace Problem

-- The values are those of the entries, which are the first cells of the table: none is left out,
-- and none is given twice.
structure Recorded (p : Problem w) (entries : List Entry) : Prop where
  addressed : p.rows * p.cols < UInt64.size
  bounded : p.values.size ≤ p.rows * p.cols
  inside : ∀ entry ∈ entries, entry.row < p.rows ∧ entry.col < p.cols
  places : entries.map (Entry.place p.rows) = List.range p.values.size
  values : entries.map Entry.value = p.values.toList

theorem recorded_started (rows cols : Nat) (small : rows * cols < UInt64.size) :
    (⟨rows, cols, #[]⟩ : Problem w).Recorded [] where
  addressed := small
  bounded := Nat.zero_le _
  inside := fun _ member => nomatch member
  places := rfl
  values := rfl

theorem recorded_appended (p : Problem w) (entries : List Entry) (recorded : p.Recorded entries)
    (row col : Nat) (value : Float) (insideRow : row < p.rows) (insideColumn : col < p.cols)
    (next : row + p.rows * col = p.values.size) :
    ({ p with values := p.values.push value } : Problem w).Recorded
      (entries ++ [⟨row, col, value⟩]) where
  addressed := recorded.addressed
  bounded := by
    have below := cell_below p.rows p.cols row col insideRow insideColumn
    change (p.values.push value).size ≤ p.rows * p.cols
    rw [Array.size_push]
    omega
  inside := by
    intro entry member
    cases List.mem_append.mp member with
    | inl earlier => exact recorded.inside entry earlier
    | inr last =>
        obtain rfl := List.mem_singleton.mp last
        exact ⟨insideRow, insideColumn⟩
  places := by
    have here : Entry.place p.rows ⟨row, col, value⟩ = p.values.size := next
    rw [List.map_append, recorded.places, List.map_singleton, here,
      Array.size_push, List.range_succ]
  values := by rw [List.map_append, recorded.values, List.map_singleton, Array.toList_push]

theorem recorded_column (p : Problem w) (entries : List Entry) (recorded : p.Recorded entries)
    (col : Nat) (values : Array Float) (size : values.size = p.rows) (insideColumn : col < p.cols)
    (next : p.rows * col = p.values.size) :
    ({ p with values := p.values ++ values } : Problem w).Recorded
      (entries ++ Entry.ofColumn col values) where
  addressed := recorded.addressed
  bounded := by
    have whole : p.rows * (col + 1) ≤ p.rows * p.cols := Nat.mul_le_mul_left _ insideColumn
    rw [Nat.mul_succ] at whole
    change (p.values ++ values).size ≤ p.rows * p.cols
    rw [Array.size_append]
    omega
  inside := by
    intro entry member
    cases List.mem_append.mp member with
    | inl earlier => exact recorded.inside entry earlier
    | inr later =>
        obtain ⟨row, inside, rfl⟩ := List.mem_mapIdx.mp later
        rw [Array.length_toList, size] at inside
        exact ⟨inside, insideColumn⟩
  places := by
    rw [List.map_append, recorded.places, Entry.column_places p.rows col values size, next,
      Array.size_append, size, List.range_add]
  values := by rw [List.map_append, recorded.values, Entry.column_values, Array.toList_append]

theorem recorded_filled (p : Problem w) (addressed : p.Addressed) (values : Array Float)
    (size : values.size = p.rows * p.cols) :
    ({ p with values } : Problem w).Recorded (Entry.ofTable p.rows values) where
  addressed := addressed
  bounded := size.le
  inside := by
    intro entry member
    obtain ⟨i, below, rfl⟩ := List.mem_mapIdx.mp member
    rw [Array.length_toList, size] at below
    obtain ⟨insideRow, insideColumn, _⟩ := cell_of_position p.rows p.cols i below
    exact ⟨insideRow, insideColumn⟩
  places := Entry.table_places p.rows values
  values := Entry.table_values p.rows values

theorem recorded_place (p : Problem w) (entries : List Entry) (recorded : p.Recorded entries)
    (i : Nat) (below : i < p.values.size) :
    ∃ entry ∈ entries, entry.place p.rows = i ∧ p.values[i]? = some entry.value := by
  have place := congrArg (·[i]?) recorded.places
  have value := congrArg (·[i]?) recorded.values
  simp only [List.getElem?_map, List.getElem?_range below, Array.getElem?_toList] at place value
  obtain ⟨entry, found, here⟩ := Option.map_eq_some_iff.mp place
  rw [found] at value
  exact ⟨entry, List.mem_of_getElem? found, here, value.symm⟩

theorem recorded_stored (p : Problem w) (entries : List Entry) (recorded : p.Recorded entries)
    (entry : Entry) (member : entry ∈ entries) :
    p.values[entry.place p.rows]? = some entry.value := by
  obtain ⟨i, found⟩ := List.mem_iff_getElem?.mp member
  have place := congrArg (·[i]?) recorded.places
  have value := congrArg (·[i]?) recorded.values
  simp only [List.getElem?_map, found, Option.map_some, Array.getElem?_toList] at place value
  obtain ⟨_, same⟩ := List.getElem?_eq_some_iff.mp place.symm
  rw [← same, List.getElem_range]
  exact value.symm

-- The check succeeds when every cell was given, because the entries fill the table from its start.
theorem recorded_complete (p : Problem w) (entries : List Entry) (recorded : p.Recorded entries) :
    p.checkComplete = .ok () ↔
      ∀ row col, row < p.rows → col < p.cols →
        ∃ entry ∈ entries, entry.row = row ∧ entry.col = col := by
  have counted : word (p.rows * p.cols) = .ok (p.rows * p.cols) := word_ok _ recorded.addressed
  have full : p.checkComplete = .ok () ↔ p.values.size = p.rows * p.cols := by
    constructor
    · exact Workspace.complete_inverted p
    · intro complete
      simp [checkComplete, counted, require, complete]
  rw [full]
  constructor
  · intro complete row col insideRow insideColumn
    have below := cell_below p.rows p.cols row col insideRow insideColumn
    obtain ⟨entry, member, here, _⟩ :=
      recorded_place p entries recorded (row + p.rows * col) (by omega)
    have inside := recorded.inside entry member
    refine ⟨entry, member, ?_, ?_⟩
    · rw [← cell_row p.rows row col insideRow, ← here, Entry.place, cell_row _ _ _ inside.1]
    · rw [← cell_column p.rows row col insideRow, ← here, Entry.place, cell_column _ _ _ inside.1]
  · intro given
    by_contra short
    have below : p.values.size < p.rows * p.cols := lt_of_le_of_ne recorded.bounded short
    obtain ⟨insideRow, insideColumn, back⟩ := cell_of_position p.rows p.cols p.values.size below
    obtain ⟨entry, member, sameRow, sameColumn⟩ := given _ _ insideRow insideColumn
    have stored := recorded_stored p entries recorded entry member
    have here : entry.place p.rows = p.values.size := by rw [Entry.place, sameRow, sameColumn, back]
    rw [here, Array.getElem?_eq_none le_rfl] at stored
    cases stored

end Problem

namespace Workspace

def Request.builds : Request w → Bool
  | .solve _ _ => false
  | _ => true

def Admits (ws : Workspace w) : Request w → Prop
  | .start rows cols => rows < w.max ∧ cols < w.max ∧ rows * cols < UInt64.size
  | .append row col _ =>
      row < ws.problem.rows ∧ col < ws.problem.cols ∧
        row + ws.problem.rows * col = ws.problem.values.size
  | .appendColumn col values =>
      values.size = ws.problem.rows ∧ col < ws.problem.cols ∧
        ws.problem.rows * col = ws.problem.values.size
  | .fill values => values.size = ws.problem.rows * ws.problem.cols
  | .solve _ _ => True

-- All that can come of a request that builds a table. Only when a new table cannot have its room is
-- the old one gone although the request was refused.
inductive Ended (ws : Workspace w) :
    Request w → Except (Halt (Workspace w)) (Workspace w) → Prop where
  | started (rows cols : Nat) (admits : ws.Admits (.start rows cols)) :
    Ended ws (.start rows cols) (.ok (ws.pose ⟨rows, cols, #[]⟩))
  | cleared (rows cols : Nat) (shortage : Shortage) (admits : ws.Admits (.start rows cols)) :
    Ended ws (.start rows cols)
      (.error (.refused (ws.pose ⟨rows, cols, #[]⟩) (.tableShortage shortage)))
  | appended (row col : Nat) (value : Float) (admits : ws.Admits (.append row col value)) :
    Ended ws (.append row col value)
      (.ok (ws.pose { ws.problem with values := ws.problem.values.push value }))
  | extended (col : Nat) (values : Array Float) (admits : ws.Admits (.appendColumn col values)) :
    Ended ws (.appendColumn col values)
      (.ok (ws.pose { ws.problem with values := ws.problem.values ++ values }))
  | filled (values : Array Float) (admits : ws.Admits (.fill values)) :
    Ended ws (.fill values) (.ok (ws.pose { ws.problem with values }))
  | unchanged (request : Request w) (why : Error) (barred : ¬ ws.Admits request)
    (other : ∀ shortage, why ≠ .tableShortage shortage) :
    Ended ws request (.error (.refused ws why))

theorem start_ended (mem : Memory) (ws : Workspace w) (rows cols : Nat) :
    ws.Ended (.start rows cols) (ws.answer mem (.start rows cols)) := by
  by_cases rowsFit : rows < w.max
  · by_cases colsFit : cols < w.max
    · by_cases small : rows * cols < UInt64.size
      · cases granted : mem.request (8 * (rows * cols)) with
        | ok =>
            have result : ws.problem.start mem rows cols = .ok ⟨rows, cols, #[]⟩ := by
              simp [Problem.start, require, rowsFit, colsFit, word_ok _ small, granted]
            rw [answer, result]
            exact .started rows cols ⟨rowsFit, colsFit, small⟩
        | error shortage =>
            have result : ws.problem.start mem rows cols =
                .error (.refused ⟨rows, cols, #[]⟩ (.tableShortage shortage)) := by
              simp [Problem.start, require, rowsFit, colsFit, word_ok _ small, granted]
            rw [answer, result]
            exact .cleared rows cols shortage ⟨rowsFit, colsFit, small⟩
      · have large : word (rows * cols) = .error .overflow := if_neg small
        have result : ws.problem.start mem rows cols =
            .error (.refused ws.problem .tableTooLarge) := by
          simp [Problem.start, require, rowsFit, colsFit, large]
        rw [answer, result]
        exact .unchanged _ _ (fun admits => small admits.2.2) (by simp)
    · have result : ws.problem.start mem rows cols =
          .error (.refused ws.problem (.tooManyColumns cols w.max)) := by
        simp [Problem.start, require, rowsFit, colsFit, refuse]
      rw [answer, result]
      exact .unchanged _ _ (fun admits => colsFit admits.2.1) (by simp)
  · have result : ws.problem.start mem rows cols =
        .error (.refused ws.problem (.tooManyRows rows w.max)) := by
      simp [Problem.start, require, rowsFit, refuse]
    rw [answer, result]
    exact .unchanged _ _ (fun admits => rowsFit admits.1) (by simp)

theorem append_ended (mem : Memory) (ws : Workspace w) (row col : Nat) (value : Float)
    (addressed : ws.problem.Addressed) :
    ws.Ended (.append row col value) (ws.answer mem (.append row col value)) := by
  by_cases inside : row < ws.problem.rows ∧ col < ws.problem.cols
  · have below := cell_below ws.problem.rows ws.problem.cols row col inside.1 inside.2
    have counted : word (row + ws.problem.rows * col) = .ok (row + ws.problem.rows * col) :=
      word_ok _ (lt_trans below addressed)
    by_cases next : row + ws.problem.rows * col = ws.problem.values.size
    · rw [next] at counted
      have result : ws.problem.append row col value =
          .ok { ws.problem with values := ws.problem.values.push value } := by
        simp [Problem.append, require, inside, next, counted]
      rw [answer, result]
      exact .appended row col value ⟨inside.1, inside.2, next⟩
    · have result : ws.problem.append row col value =
          .error (.refused ws.problem .cellOutOfOrder) := by
        simp [Problem.append, require, inside, counted, next, refuse]
      rw [answer, result]
      exact .unchanged _ _ (fun admits => next admits.2.2) (by simp)
  · have result : ws.problem.append row col value = .error (.refused ws.problem .cellOutside) := by
      simp [Problem.append, require, inside, refuse]
    rw [answer, result]
    exact .unchanged _ _ (fun admits => inside ⟨admits.1, admits.2.1⟩) (by simp)

theorem append_column_ended (mem : Memory) (ws : Workspace w) (col : Nat) (values : Array Float)
    (addressed : ws.problem.Addressed) :
    ws.Ended (.appendColumn col values) (ws.answer mem (.appendColumn col values)) := by
  by_cases size : values.size = ws.problem.rows
  · by_cases inside : col < ws.problem.cols
    · have below : ws.problem.rows * col ≤ ws.problem.rows * ws.problem.cols :=
        Nat.mul_le_mul_left _ inside.le
      have counted : word (ws.problem.rows * col) = .ok (ws.problem.rows * col) :=
        word_ok _ (lt_of_le_of_lt below addressed)
      by_cases next : ws.problem.rows * col = ws.problem.values.size
      · rw [next] at counted
        have result : ws.problem.appendColumn col values =
            .ok { ws.problem with values := ws.problem.values ++ values } := by
          simp [Problem.appendColumn, require, size, inside, next, counted]
        rw [answer, result]
        exact .extended col values ⟨size, inside, next⟩
      · have result : ws.problem.appendColumn col values =
            .error (.refused ws.problem .columnOutOfOrder) := by
          simp [Problem.appendColumn, require, size, inside, counted, next, refuse]
        rw [answer, result]
        exact .unchanged _ _ (fun admits => next admits.2.2) (by simp)
    · have result : ws.problem.appendColumn col values =
          .error (.refused ws.problem (.columnOutside col ws.problem.cols)) := by
        simp [Problem.appendColumn, require, size, inside, refuse]
      rw [answer, result]
      exact .unchanged _ _ (fun admits => inside admits.2.1) (by simp)
  · have result : ws.problem.appendColumn col values =
        .error (.refused ws.problem (.columnLength values.size ws.problem.rows)) := by
      simp [Problem.appendColumn, require, size, refuse]
    rw [answer, result]
    exact .unchanged _ _ (fun admits => size admits.1) (by simp)

theorem fill_ended (mem : Memory) (ws : Workspace w) (values : Array Float)
    (addressed : ws.problem.Addressed) :
    ws.Ended (.fill values) (ws.answer mem (.fill values)) := by
  have counted : word (ws.problem.rows * ws.problem.cols) =
    .ok (ws.problem.rows * ws.problem.cols) := word_ok _ addressed
  by_cases size : values.size = ws.problem.rows * ws.problem.cols
  · have result : ws.problem.fill values = .ok { ws.problem with values } := by
      simp [Problem.fill, require, counted, size]
    rw [answer, result]
    exact .filled values size
  · have result : ws.problem.fill values =
        .error (.refused ws.problem
            (.tableLength ws.problem.rows ws.problem.cols values.size)) := by
      simp [Problem.fill, require, counted, size, refuse]
    rw [answer, result]
    exact .unchanged _ _ size (by simp)

theorem building_ended (mem : Memory) (ws : Workspace w) (request : Request w)
    (addressed : ws.problem.Addressed) (builds : request.builds) :
    ws.Ended request (ws.answer mem request) := by
  cases request with
  | start rows cols => exact start_ended mem ws rows cols
  | append row col value => exact append_ended mem ws row col value addressed
  | appendColumn col values => exact append_column_ended mem ws col values addressed
  | fill values => exact fill_ended mem ws values addressed
  | solve options report => cases builds

def Request.entries (rows : Nat) (before : List Entry) :
    Request w → Except (Halt (Workspace w)) (Workspace w) → List Entry
  | .start _ _, .ok _ => []
  | .start _ _, .error (.refused _ (.tableShortage _)) => []
  | .append row col value, .ok _ => before ++ [⟨row, col, value⟩]
  | .appendColumn col values, .ok _ => before ++ Entry.ofColumn col values
  | .fill values, .ok _ => Entry.ofTable rows values
  | _, _ => before

def entered (mem : Memory) (ws : Workspace w) (request : Request w) (before : List Entry) :
    List Entry :=
  request.entries ws.problem.rows before (ws.answer mem request)

theorem ended_recorded (ws : Workspace w) (request : Request w)
    (result : Except (Halt (Workspace w)) (Workspace w)) (next : Workspace w) (entries : List Entry)
    (recorded : ws.problem.Recorded entries) (ended : ws.Ended request result)
    (left : Halt.left? result = some next) :
    next.problem.Recorded (request.entries ws.problem.rows entries result) := by
  cases ended with
  | started rows cols admits =>
      cases left
      exact Problem.recorded_started rows cols admits.2.2
  | cleared rows cols shortage admits =>
      cases left
      exact Problem.recorded_started rows cols admits.2.2
  | appended row col value admits =>
      cases left
      obtain ⟨insideRow, insideColumn, here⟩ := admits
      exact Problem.recorded_appended ws.problem entries recorded row col value
        insideRow insideColumn here
  | extended col values admits =>
      cases left
      obtain ⟨size, insideColumn, here⟩ := admits
      exact Problem.recorded_column ws.problem entries recorded col values size insideColumn here
  | filled values admits =>
      cases left
      exact Problem.recorded_filled ws.problem recorded.addressed values admits
  | unchanged request why barred other =>
      cases left
      have same : request.entries ws.problem.rows entries (.error (.refused ws why)) = entries := by
        cases request with
        | start rows cols =>
            cases why with
            | tableShortage shortage => exact absurd rfl (other shortage)
            | _ => rfl
        | _ => rfl
      rw [same]
      exact recorded

theorem entered_recorded (mem : Memory) (ws : Workspace w) (request : Request w)
    (next : Workspace w) (entries : List Entry) (recorded : ws.problem.Recorded entries)
    (left : Halt.left? (ws.answer mem request) = some next) :
    next.problem.Recorded (entered mem ws request entries) := by
  by_cases builds : request.builds
  · exact ended_recorded ws request _ next entries recorded
      (building_ended mem ws request recorded.addressed builds) left
  · cases request with
    | solve options report =>
        have same : next.problem = ws.problem := by
          apply Halt.left_kept (fun after => after.problem = ws.problem) _ next _ left
          exact Halt.embed_keeps _ Prod.fst _ (solve_for mem options ws report)
        rw [same]
        exact recorded
    | _ => exact absurd rfl builds

end Workspace

/-- After any history of requests the table holds exactly what was given and accepted since it was
last started. Every further request to build it is accepted as asked for, or refused with nothing
changed, unless the room for a new table cannot be had. -/
theorem served_table_recorded (made : Memory) (rowsRoom colsRoom : Nat) (first ws : Workspace w)
    (pending : Assignment w)
    (opened : Workspace.withRoom made rowsRoom colsRoom = .ok (first, pending))
    (history : List (Memory × Workspace.Request w)) (served : first.serve history = some ws) :
    ws.problem.Recorded (first.observe Workspace.entered [] history) ∧
      (∀ entry ∈ first.observe Workspace.entered [] history,
        ws.problem.values[entry.row + ws.problem.rows * entry.col]? = some entry.value) ∧
      (ws.problem.checkComplete = .ok () ↔
        ∀ row col, row < ws.problem.rows → col < ws.problem.cols →
          ∃ entry ∈ first.observe Workspace.entered [] history, entry.row = row ∧ entry.col = col) ∧
      ∀ mem (request : Workspace.Request w), request.builds →
        ws.Ended request (ws.answer mem request) := by
  obtain ⟨rfl, rfl⟩ := Workspace.with_room_inverted made rowsRoom colsRoom first pending opened
  have recorded : ws.problem.Recorded _ := Workspace.observed_agrees Workspace.entered
    (fun ws entries => ws.problem.Recorded entries) Workspace.entered_recorded history _ ws []
    (Problem.recorded_started 0 0 (by decide)) served
  refine ⟨recorded, ?stored, Problem.recorded_complete ws.problem _ recorded, ?next⟩
  case stored =>
    intro entry member
    exact Problem.recorded_stored ws.problem _ recorded entry member
  case next =>
    intro mem request builds
    exact Workspace.building_ended mem ws request recorded.addressed builds

-- A table given cell by cell, one that finds no room, and in its place one given in both ways
-- between requests that are refused.
def mixed : List (Memory × Workspace.Request .bits8) :=
  [(⟨100⟩, .start 2 2), (⟨100⟩, .append 0 0 9), (⟨100⟩, .append 0 1 9), (⟨10⟩, .start 3 2),
    (⟨100⟩, .append 0 0 1), (⟨100⟩, .append 0 0 1), (⟨100⟩, .append 1 0 2),
    (⟨100⟩, .appendColumn 1 #[4, 5, 6]), (⟨100⟩, .append 2 0 3), (⟨100⟩, .start 255 1),
    (⟨100⟩, .appendColumn 1 #[4, 5]), (⟨100⟩, .appendColumn 1 #[4, 5, 6]), (⟨100⟩, .fill #[0])]

theorem served_table_recorded_mixed :
    ∃ first pending ws, Workspace.withRoom (w := .bits8) ⟨100⟩ 2 2 = .ok (first, pending) ∧
      first.serve mixed = some ws ∧ ws.problem = ⟨3, 2, #[1, 2, 3, 4, 5, 6]⟩ ∧
      (first.observe Workspace.entered [] mixed).map
          (fun entry => (entry.row, entry.col, entry.value)) =
        [(0, 0, 1), (1, 0, 2), (2, 0, 3), (0, 1, 4), (1, 1, 5), (2, 1, 6)] ∧
      ws.problem.Recorded (first.observe Workspace.entered [] mixed) ∧
      ∀ mem (request : Workspace.Request .bits8), request.builds →
        ws.Ended request (ws.answer mem request) := by
  have served :
      (Workspace.serve (⟨{}, .blank, {}, false⟩ : Workspace .bits8) mixed).map (·.problem.values) =
        some #[1, 2, 3, 4, 5, 6] := by
    decide +kernel
  have sized :
      (Workspace.serve (⟨{}, .blank, {}, false⟩ : Workspace .bits8) mixed).map
        (fun ws => (ws.problem.rows, ws.problem.cols)) = some (3, 2) := by
    decide +kernel
  have noted :
      (Workspace.observe Workspace.entered (⟨{}, .blank, {}, false⟩ : Workspace .bits8)
        [] mixed).map (fun entry => (entry.row, entry.col, entry.value)) =
        [(0, 0, 1), (1, 0, 2), (2, 0, 3), (0, 1, 4), (1, 1, 5), (2, 1, 6)] := by
    decide +kernel
  have opened :=
    Workspace.with_room_ok (w := .bits8) ⟨100⟩ 2 2 ⟨by decide, by decide, by decide, by decide⟩
  obtain ⟨⟨⟨rows, cols, values⟩, board, tally, solved⟩, reached, same⟩ :=
    Option.map_eq_some_iff.mp served
  rw [reached] at sized
  cases sized
  cases same
  obtain ⟨recorded, _, _, ended⟩ := served_table_recorded ⟨100⟩ 2 2 _ _ _ opened mixed reached
  exact ⟨_, _, _, opened, reached, rfl, noted, recorded, ended⟩

end LinearAssignment
