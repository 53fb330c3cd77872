-- SUMMARY: Laws of the walk over the markers of a log: its steps, its skip words, and logs one behind the other.
import BuildLog.Proofs.Layout.Locality
import BuildLog.Proofs.Layout.Markers

/-!
# The records of a log

`recordsFrom` walks over positions and stops at the first fault. Skip words leave records
out of the result and change nothing else, so the other laws are about walks without them.
-/

namespace BuildLog.Layout

variable {layout : Layout} {lines skip : List Text} {count : Nat}

/-! ## Steps of the walk -/

/-- The records that the skip words leave. -/
def kept (skip : List Text) (records : List Record) : List Record :=
  records.filter fun r => !r.isNamedBy skip

theorem kept_append (rs rs' : List Record) :
    kept skip (rs ++ rs') = kept skip rs ++ kept skip rs' :=
  List.filter_append ..

theorem kept_nil (rs : List Record) : kept [] rs = rs := by
  simp [kept, Record.isNamedBy]

theorem recordsFrom_cons (i : Nat) (is : List Nat) :
    layout.recordsFrom lines skip count (i :: is) = (do
      let r ← layout.record? lines count i
      let rs ← layout.recordsFrom lines skip (count + r.toList.length) is
      return kept skip r.toList ++ rs) := by
  rw [recordsFrom]
  cases layout.record? lines count i with
  | error fault => rfl
  | ok r =>
    cases r with
    | none => exact (bind_pure _).symm
    | some r =>
      change _ = (layout.recordsFrom lines skip (count + 1) is >>= fun rs =>
        Except.ok (kept skip [r] ++ rs))
      cases layout.recordsFrom lines skip (count + 1) is with
      | error fault => rfl
      | ok rs => cases hr : r.isNamedBy skip <;> simp [kept, hr, bind, Except.bind]

/-! ## Skip words -/

theorem recordsFrom_skip (skip : List Text) (count : Nat) (is : List Nat) :
    layout.recordsFrom lines skip count is =
      layout.recordsFrom lines [] count is >>= fun rs => pure (kept skip rs) := by
  induction is generalizing count with
  | nil => rfl
  | cons i is ih =>
    rw [recordsFrom_cons, recordsFrom_cons]
    simp only [ih, bind_assoc, pure_bind, kept_nil, kept_append]

/-- Skip words decide which of the recovered records are returned, and nothing else. -/
theorem records_skip_eq_ok {rs : List Record} :
    layout.records lines skip = .ok rs ↔
      ∃ all, layout.records lines [] = .ok all ∧ kept skip all = rs := by
  rw [records, recordsFrom_skip, bind_eq_ok]
  simp [records, pure, Except.pure]

/-! ## Walks one behind the other -/

theorem recordsFrom_append (is js : List Nat) :
    layout.recordsFrom lines [] count (is ++ js) = (do
      let rs ← layout.recordsFrom lines [] count is
      let rs' ← layout.recordsFrom lines [] (count + rs.length) js
      return rs ++ rs') := by
  induction is generalizing count with
  | nil => exact (bind_pure _).symm
  | cons i is ih =>
    rw [List.cons_append, recordsFrom_cons, recordsFrom_cons]
    simp only [ih, bind_assoc, pure_bind, kept_nil, List.length_append, Nat.add_assoc,
      List.append_assoc]

/-- A walk succeeds on other lines and in another layout if all its records are found there, at
other positions. -/
theorem recordsFrom_transport {layout' : Layout} {lines' : List Text} {move : Nat → Nat}
    {is : List Nat} {rs : List Record}
    (hmove : ∀ i ∈ is, ∀ count r,
      layout.record? lines count i = .ok r → layout'.record? lines' count (move i) = .ok r)
    (h : layout.recordsFrom lines skip count is = .ok rs) :
    layout'.recordsFrom lines' skip count (is.map move) = .ok rs := by
  induction is generalizing count rs with
  | nil => exact h
  | cons i is ih =>
    rw [recordsFrom_cons] at h
    obtain ⟨r, hr, h⟩ := bind_eq_ok.1 h
    obtain ⟨rs', hrs, h⟩ := bind_eq_ok.1 h
    rw [List.map_cons, recordsFrom_cons, hmove i (by simp) count r hr]
    have hrest := ih (fun j hj => hmove j (by simp [hj])) hrs
    exact bind_eq_ok.2 ⟨r, rfl, bind_eq_ok.2 ⟨rs', hrest, h⟩⟩

theorem recordsFrom_congr {lines' : List Text} {is : List Nat}
    (h : ∀ i ∈ is, ∀ count, layout.record? lines count i = layout.record? lines' count i) :
    layout.recordsFrom lines skip count is = layout.recordsFrom lines' skip count is := by
  induction is generalizing count with
  | nil => rfl
  | cons i is ih =>
    rw [recordsFrom_cons, recordsFrom_cons, h i (by simp)]
    refine bind_congr fun r => ?_
    rw [ih fun j hj => h j (by simp [hj])]

/-- A walk succeeds if each of its positions does, however many records were counted there. -/
theorem recordsFrom_of_forall₂ {is : List Nat} {outs : List (Option Record)}
    (h : List.Forall₂ (fun i r => ∀ count, layout.record? lines count i = .ok r) is outs) :
    layout.recordsFrom lines [] count is = .ok (outs.flatMap Option.toList) := by
  induction h generalizing count with
  | nil => rfl
  | cons hr _ ih =>
    rw [recordsFrom_cons, hr]
    refine bind_eq_ok.2 ⟨_, rfl, bind_eq_ok.2 ⟨_, ih, ?_⟩⟩
    rw [kept_nil, List.flatMap_cons]
    rfl

/-- Positions without a record can be passed over. -/
theorem recordsFrom_filter {p : Nat → Bool} {is : List Nat}
    (h : ∀ i ∈ is, ¬ p i → ∀ count, layout.record? lines count i = .ok none) :
    layout.recordsFrom lines skip count (is.filter p) = layout.recordsFrom lines skip count is := by
  induction is generalizing count with
  | nil => rfl
  | cons i is ih =>
    have hrest : ∀ count, layout.recordsFrom lines skip count (is.filter p) =
        layout.recordsFrom lines skip count is :=
      fun _ => ih fun j hj => h j (by simp [hj])
    cases hp : p i with
    | true => simp only [List.filter_cons_of_pos hp, recordsFrom_cons, hrest]
    | false =>
      have hrecord : layout.record? lines count i = .ok none := h i (by simp) (by simp [hp]) count
      rw [List.filter_cons_of_neg (by simp [hp]), hrest, recordsFrom, hrecord]

/-- Only a layout without task names counts its records. -/
theorem recordsFrom_count (hlayout : layout ≠ maven) (count count' : Nat) (is : List Nat) :
    layout.recordsFrom lines skip count is = layout.recordsFrom lines skip count' is := by
  induction is generalizing count count' with
  | nil => rfl
  | cons i is ih =>
    have hrecord : layout.record? lines count i = layout.record? lines count' i := by
      cases layout with
      | maven => exact absurd rfl hlayout
      | _ => rfl
    rw [recordsFrom_cons, recordsFrom_cons, hrecord]
    refine bind_congr fun r => ?_
    rw [ih _ (count' + r.toList.length)]

/-- The records of two logs one behind the other are those of the first and then those of
the second, if their names are not counted. -/
theorem records_append (hlayout : layout ≠ maven) {a b : List Text} {rs rs' : List Record}
    (ha : layout.records a skip = .ok rs) (hb : layout.records b skip = .ok rs') :
    layout.records (a ++ b) skip = .ok (rs ++ rs') := by
  -- Skip words change no walk, so both are looked at without them.
  obtain ⟨all, hall, rfl⟩ := records_skip_eq_ok.1 ha
  obtain ⟨all', hall', rfl⟩ := records_skip_eq_ok.1 hb
  refine records_skip_eq_ok.2 ⟨all ++ all', ?_, kept_append ..⟩
  have hahead : layout.recordsFrom (a ++ b) [] 0 (layout.markers a) = .ok all := by
    rw [← List.map_id (layout.markers a)]
    refine recordsFrom_transport ?_ hall
    intro i hi count r hr
    exact record?_append_left_of_ok (lt_of_mem_markers hi) hr
  have hbehind : layout.recordsFrom (a ++ b) [] (0 + all.length)
      ((layout.markers b).map (a.length + ·)) = .ok all' := by
    rw [recordsFrom_count hlayout _ 0]
    refine recordsFrom_transport ?_ hall'
    intro i _ count r hr
    exact record?_append_right a hr
  rw [records, markers_append, recordsFrom_append]
  exact bind_eq_ok.2 ⟨all, hahead, bind_eq_ok.2 ⟨all', hbehind, rfl⟩⟩

theorem records_flatten (hlayout : layout ≠ maven) {logs : List (List Text)}
    {perLog : List (List Record)}
    (h : List.Forall₂ (fun log rs => layout.records log skip = .ok rs) logs perLog) :
    layout.records logs.flatten skip = .ok perLog.flatten := by
  induction h with
  | nil => cases layout <;> rfl
  | cons hlog _ ih => exact records_append hlayout hlog ih

end BuildLog.Layout
