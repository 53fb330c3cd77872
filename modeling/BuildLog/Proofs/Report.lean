-- SUMMARY: A printed report has two lines for each record, and only one list of records is printed that way.
import BuildLog.Proofs.Layout.OneLine
import BuildLog.Proofs.ReducedArguments
import BuildLog.Proofs.Scan

/-!
# Printed reports

Records that were recovered from a log stand on one line each, and so they do with reduced
arguments or new numbers. Hence the lines of a report are the names and arguments of its
records in turn, and the records can be read back.
-/

namespace BuildLog

/-! ## Lines of a report -/

namespace Record

variable {rs rs' : List Record}

/-- The name and the arguments of each record in turn. -/
def reportLines (rs : List Record) : List Text :=
  rs.flatMap fun r => [r.name, r.args]

@[simp]
theorem reportLines_nil : reportLines [] = [] := rfl

@[simp]
theorem reportLines_cons (r : Record) (rs : List Record) :
    reportLines (r :: rs) = r.name :: r.args :: reportLines rs := rfl

theorem length_reportLines (rs : List Record) : (reportLines rs).length = 2 * rs.length := by
  induction rs with
  | nil => rfl
  | cons r rs ih =>
    simp only [reportLines_cons, List.length_cons, ih]
    omega

theorem reportLines_injective : Function.Injective reportLines := by
  intro rs rs' h
  induction rs generalizing rs' with
  | nil =>
    cases rs' with
    | nil => rfl
    | cons r' rs' => cases h
  | cons r rs ih =>
    cases rs' with
    | nil => cases h
    | cons r' rs' =>
      simp only [reportLines_cons, List.cons.injEq] at h
      obtain ⟨hname, hargs, hrest⟩ := h
      have hr : r = r' := by
        cases r
        cases r'
        exact (Record.mk.injEq ..).mpr ⟨hname, hargs⟩
      rw [hr, ih hrest]

/-- The text behind the last line feed of a report is empty. -/
theorem splitOn_report (h : ∀ r ∈ rs, r.IsOneLine) :
    (report rs).splitOn '\n' = reportLines rs ++ [[]] := by
  induction rs with
  | nil => rfl
  | cons r rs ih =>
    obtain ⟨hname, hargs⟩ := h r (by simp)
    have hrender : report (r :: rs) = r.name ++ '\n' :: (r.args ++ '\n' :: report rs) := by
      simp [render]
    rw [hrender, List.splitOn_append_cons_self_of_not_mem hname,
      List.splitOn_append_cons_self_of_not_mem hargs, ih fun r' hr' => h r' (by simp [hr'])]
    rfl

theorem eq_of_report_eq (h : ∀ r ∈ rs, r.IsOneLine) (h' : ∀ r ∈ rs', r.IsOneLine)
    (heq : report rs = report rs') : rs = rs' := by
  have hlines : reportLines rs ++ [[]] = reportLines rs' ++ [[]] := by
    rw [← splitOn_report h, ← splitOn_report h', heq]
  exact reportLines_injective (List.append_cancel_right hlines)

end Record

/-! ## Reports of recovered records -/

namespace Program

open Record

/-- The lists of records that logs lead to: what is scraped from a text or scanned from files,
also with new numbers and with reduced arguments. -/
inductive Recovered : List Record → Prop
  | scraped {layout : Layout} {text : Text} {skip : List Text} {rs : List Record}
      (h : layout.scrape text skip = .ok rs) : Recovered rs
  | scanned {layout : Layout} {skip : List Text} {logs : List Path} {m m' : Machine}
      {rs : List Record} (h : (scanLogs layout skip logs).run m = .ok rs m') : Recovered rs
  | renumbered {rs : List Record} (h : Recovered rs) : Recovered (renumber rs)
  | reduced (filter : Bool) {rs : List Record} (h : Recovered rs) : Recovered (reduced filter rs)

theorem reduced_isOneLine (filter : Bool) {rs : List Record} (h : ∀ r ∈ rs, r.IsOneLine) :
    ∀ r ∈ reduced filter rs, r.IsOneLine := by
  cases filter with
  | false => exact h
  | true =>
    refine List.forall_mem_map.2 ?_
    intro r hr
    exact ⟨(h r hr).1, Arguments.not_mem_filterLine (h r hr).2⟩

theorem scanLogs_isOneLine {layout : Layout} {skip : List Text} {logs : List Path}
    {m m' : Machine} {rs : List Record} (h : (scanLogs layout skip logs).run m = .ok rs m') :
    ∀ r ∈ rs, r.IsOneLine := by
  obtain ⟨⟨texts, perLog, -, hscrape, rfl⟩, -⟩ := scanLogs_run_eq_ok.1 h
  have hflatten : ∀ r ∈ perLog.flatten, r.IsOneLine :=
    Layout.forall_mem_flatten (fun _ _ => Layout.scrape_isOneLine) hscrape
  cases layout with
  | maven => exact renumber_isOneLine hflatten
  | _ => exact hflatten

theorem Recovered.isOneLine {rs : List Record} (h : Recovered rs) : ∀ r ∈ rs, r.IsOneLine := by
  induction h with
  | scraped h => exact Layout.scrape_isOneLine h
  | scanned h => exact scanLogs_isOneLine h
  | renumbered _ ih => exact renumber_isOneLine ih
  | reduced filter _ ih => exact reduced_isOneLine filter ih

/-- The lines of a report are the names and the arguments of its records, so no other records
that logs lead to have the same report. -/
theorem report_of_recovered {rs : List Record} (h : Recovered rs) :
    (∀ r ∈ rs, '\n' ∉ r.name ∧ '\n' ∉ r.args) ∧
    (report rs).splitOn '\n' = (rs.flatMap fun r => [r.name, r.args]) ++ [[]] ∧
    ((report rs).splitOn '\n').length = 2 * rs.length + 1 ∧
    ∀ rs', Recovered rs' → report rs = report rs' → rs = rs' := by
  have hlines : (report rs).splitOn '\n' = reportLines rs ++ [[]] := splitOn_report h.isOneLine
  refine ⟨h.isOneLine, hlines, ?_, ?_⟩
  · rw [hlines, List.length_append, length_reportLines]
    rfl
  · intro rs' h'
    exact eq_of_report_eq h.isOneLine h'.isOneLine

/-- Two records of Maven with a line separator and a carriage return among the arguments, as
they are and reduced. -/
theorem report_of_recovered_separators :
    let text := "[DEBUG] -d a\u2028b\rc -parameters -g\r\n[INFO] -d d -parameters\n".toList
    let rs : List Record := [⟨"blob 0".toList, "-d a\u2028b\rc -parameters -g".toList⟩,
      ⟨"blob 1".toList, "-d d -parameters".toList⟩]
    let short : List Record := [⟨"blob 0".toList, "-parameters -g".toList⟩,
      ⟨"blob 1".toList, "-parameters".toList⟩]
    (Recovered rs ∧ Recovered short) ∧ Layout.maven.scrape text [] = .ok rs ∧
      (report rs).splitOn '\n' = ["blob 0".toList, "-d a\u2028b\rc -parameters -g".toList,
        "blob 1".toList, "-d d -parameters".toList, []] ∧
      (report rs = report short → rs = short) := by
  intro text rs short
  have hscrape : Layout.maven.scrape text [] = .ok rs := by
    unfold text rs
    cbv
  have hrs : Recovered rs := .scraped hscrape
  have hreduced : reduced true rs = short := by decide
  have hshort : Recovered short := hreduced ▸ .reduced true hrs
  obtain ⟨-, hlines, -, hunique⟩ := report_of_recovered hrs
  exact ⟨⟨hrs, hshort⟩, hscrape, hlines, hunique short hshort⟩

end Program

end BuildLog
