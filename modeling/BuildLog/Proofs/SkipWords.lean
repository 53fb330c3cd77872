-- SUMMARY: Skip words take records out of a finished result, by name, and have no say in anything else.
import BuildLog.Proofs.Layout.CommandLines
import BuildLog.Proofs.Layout.FirstFault
import Mathlib.Data.List.Infix

/-!
# Skip words

The walk over a log tests each record against the skip words as soon as it is recovered. The
test moves neither the count of the records nor the fault that ends the walk. So the walk comes
to the same as recovering all records first and leaving some out of the result.
-/

namespace BuildLog.Layout

variable {layout : Layout} {lines skip skip' : List Text}

/-! ## Records that are left -/

theorem kept_eq_filter (skip : List Text) (rs : List Record) :
    kept skip rs = rs.filter fun r => ∀ word ∈ skip, ¬ word <:+: r.name := by
  refine List.filter_congr ?_
  intro r _
  rw [Bool.eq_iff_iff, Bool.not_eq_true', ← Bool.not_eq_true, Record.isNamedBy_iff,
    decide_eq_true_iff]
  simp only [not_exists, not_and]

theorem kept_congr (h : ∀ word, word ∈ skip ↔ word ∈ skip') (rs : List Record) :
    kept skip rs = kept skip' rs := by
  simp only [kept_eq_filter, h]

theorem kept_kept (skip skip' : List Text) (rs : List Record) :
    kept skip' (kept skip rs) = kept (skip ++ skip') rs := by
  simp only [kept, List.filter_filter, Record.isNamedBy, List.any_append, Bool.not_or,
    Bool.and_comm]

/-! ## Records of a log -/

theorem records_eq_map (skip : List Text) :
    layout.records lines skip = (layout.records lines []).map (kept skip) := by
  rw [records, records, recordsFrom_skip]
  cases layout.recordsFrom lines [] 0 (layout.markers lines) with
  | error fault => rfl
  | ok all => rfl

/-- A log has the same fault with skip words as without. Otherwise the skip words leave exactly
the records in whose names none of them occurs. Neither the order of the words matters nor how
often one is given, and more words can be applied later. -/
theorem records_skip (layout : Layout) (lines skip : List Text) :
    (∀ fault, layout.records lines skip = .error fault ↔ layout.records lines [] = .error fault) ∧
    (∀ all, layout.records lines [] = .ok all →
      layout.records lines skip = .ok (all.filter fun r => ∀ word ∈ skip, ¬ word <:+: r.name)) ∧
    (∀ skip', (∀ word, word ∈ skip ↔ word ∈ skip') →
      layout.records lines skip = layout.records lines skip') ∧
    ∀ skip', layout.records lines (skip ++ skip') = (layout.records lines skip).map
      fun rs => rs.filter fun r => ∀ word ∈ skip', ¬ word <:+: r.name := by
  refine ⟨?_, ?_, ?_, ?_⟩
  · intro fault
    exact records_eq_error_skip []
  · intro all hall
    rw [← kept_eq_filter]
    exact records_skip_eq_ok.2 ⟨all, hall, rfl⟩
  · intro skip' hwords
    have hkept : kept skip = kept skip' := funext (kept_congr hwords)
    rw [records_eq_map skip, records_eq_map skip', hkept]
  · intro skip'
    simp only [← kept_eq_filter]
    rw [records_eq_map (skip ++ skip'), records_eq_map skip]
    cases layout.records lines [] with
    | error fault => rfl
    | ok all => exact congrArg Except.ok (kept_kept skip skip' all).symm

end BuildLog.Layout
