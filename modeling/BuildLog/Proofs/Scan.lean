-- SUMMARY: What a scan of log files returns, and that cutting a log into several changes nothing.
import BuildLog.Program
import BuildLog.Proofs.Layout.CommandLines
import BuildLog.Proofs.Log.Lines
import BuildLog.Proofs.Text.Utf8
import Mathlib

/-!
# Scanning log files

A scan reads each file, scrapes its text and gathers the records. It succeeds exactly if
every file can be read and every text scraped, and it leaves the machine as it was.
-/

namespace BuildLog

namespace Machine

/-- The file at a path reads as the text. -/
def Reads (m : Machine) (path : Path) (text : Text) : Prop :=
  ∃ data, m.files.readFile m.here path = .ok data ∧ Utf8.decodeLossy data = text

theorem Reads.unique {m : Machine} {path : Path} {text text' : Text} (h : m.Reads path text)
    (h' : m.Reads path text') : text = text' := by
  obtain ⟨data, hdata, rfl⟩ := h
  obtain ⟨data', hdata', rfl⟩ := h'
  rw [hdata] at hdata'
  cases hdata'
  rfl

theorem reads_of_encode {m : Machine} {path : Path} {text : Text}
    (h : m.files.readFile m.here path = .ok (Utf8.encode text)) : m.Reads path text :=
  ⟨_, h, Utf8.decodeLossy_encode text⟩

/-- A machine with nothing on it but named logs at the root. -/
def ofLogs (logs : List (Text × Text)) : Machine where
  files :=
    { entries := logs.map fun (name, text) => ([name], .file false (Utf8.encode text))
      sink_place := by
        intro entry hentry hsink
        obtain ⟨log, -, rfl⟩ := List.mem_map.1 hentry
        cases hsink }
  here := []
  environment := []
  programs := []
  runs := []
  calls := []
  freshName := []
  time := []
  notices := []
  complaint _ := []

end Machine

namespace Layout

variable {layout : Layout} {skip : List Text} {texts : List Text} {perLog : List (List Record)}

/-! ## Logs one behind the other -/

theorem forall_mem_flatten {p : Record → Prop}
    (hscrape : ∀ text rs, layout.scrape text skip = .ok rs → ∀ r ∈ rs, p r)
    (h : List.Forall₂ (fun text rs => layout.scrape text skip = .ok rs) texts perLog) :
    ∀ r ∈ perLog.flatten, p r := by
  induction h with
  | nil => simp
  | cons hlog _ ih =>
    rw [List.flatten_cons, List.forall_mem_append]
    exact ⟨hscrape _ _ hlog, ih⟩

theorem gather_of_ne_maven (hlayout : layout ≠ maven) : layout.gather perLog = perLog.flatten := by
  cases layout with
  | maven => exact absurd rfl hlayout
  | _ => rfl

theorem scrape_maven_forall₂ :
    List.Forall₂ (fun text rs => maven.scrape text skip = .ok rs) texts perLog ↔
      (texts.map fun text => kept skip (Record.numbered (Maven.commands (Log.lines text)))) = perLog := by
  simp only [scrape, records_maven, Except.ok.injEq]
  rw [← List.forall₂_map_left_iff (R := Eq), List.forall₂_eq_eq_eq]

/-- Scraping closed texts one behind the other gathers what is scraped from each of them. The
numbers of command lines go on, so no number may be skipped. -/
theorem scrape_flatten (hclosed : ∀ text ∈ texts, Log.IsClosed text)
    (hskip : layout = maven → ∀ n, ¬ Record.skipsNumber skip n)
    (h : List.Forall₂ (fun text rs => layout.scrape text skip = .ok rs) texts perLog) :
    layout.scrape texts.flatten skip = .ok (layout.gather perLog) := by
  unfold scrape
  rw [Log.lines_flatten hclosed]
  by_cases hlayout : layout = maven
  · subst hlayout
    -- The numbers of each log start from zero, so the logs have only their arguments in common
    -- with the whole.
    obtain rfl := scrape_maven_forall₂.1 h
    simp only [kept_numbered_of_forall (hskip rfl), records_maven, Maven.commands_flatten]
    rw [gather, Record.renumber_eq_numbered, List.map_flatten, List.map_map, List.map_map]
    simp only [Function.comp_def, Record.numbered_args]
  · rw [gather_of_ne_maven hlayout]
    exact records_flatten hlayout (List.forall₂_map_left_iff.2 h)

end Layout

namespace Program

variable {layout : Layout} {skip : List Text} {m m' : Machine}

/-! ## Runs of a scan -/

theorem scrapeFile_run_eq_ok {path : Path} {rs : List Record} :
    (scrapeFile layout skip path).run m = .ok rs m' ↔
      (∃ text, m.Reads path text ∧ layout.scrape text skip = .ok rs) ∧ m = m' := by
  rw [scrapeFile, Action.bind_run_eq_ok]
  constructor
  · rintro ⟨data, m₁, hread, hscrape⟩
    obtain ⟨hdata, rfl⟩ := Action.attempt_run_eq_ok.1 hread
    obtain ⟨hrs, rfl⟩ := Action.attempt_run_eq_ok.1 hscrape
    exact ⟨⟨_, ⟨data, hdata, rfl⟩, hrs⟩, rfl⟩
  · rintro ⟨⟨_, ⟨data, hdata, rfl⟩, hrs⟩, rfl⟩
    exact ⟨data, m, Action.attempt_run_eq_ok.2 ⟨hdata, rfl⟩,
      Action.attempt_run_eq_ok.2 ⟨hrs, rfl⟩⟩

theorem scanLogs_run_eq_ok {logs : List Path} {rs : List Record} :
    (scanLogs layout skip logs).run m = .ok rs m' ↔
      (∃ texts perLog, List.Forall₂ m.Reads logs texts ∧
        List.Forall₂ (fun text rs => layout.scrape text skip = .ok rs) texts perLog ∧
        layout.gather perLog = rs) ∧ m = m' := by
  have hmapM : ∀ {perLog m₁}, (logs.mapM (scrapeFile layout skip)).run m = .ok perLog m₁ ↔
      (∃ texts, List.Forall₂ m.Reads logs texts ∧
        List.Forall₂ (fun text rs => layout.scrape text skip = .ok rs) texts perLog) ∧ m = m₁ := by
    intro perLog m₁
    rw [Action.mapM_run_eq_ok fun path rs m m' h => (scrapeFile_run_eq_ok.1 h).2, ← forall₂_comp]
    simp only [scrapeFile_run_eq_ok, and_true]
  rw [scanLogs, Action.bind_run_eq_ok]
  constructor
  · rintro ⟨perLog, m₁, hperLog, hgather⟩
    obtain ⟨⟨texts, hreads, hscrape⟩, rfl⟩ := hmapM.1 hperLog
    obtain ⟨rfl, rfl⟩ := Action.pure_run_eq_ok.1 hgather
    exact ⟨⟨texts, perLog, hreads, hscrape, rfl⟩, rfl⟩
  · rintro ⟨⟨texts, perLog, hreads, hscrape, rfl⟩, rfl⟩
    exact ⟨perLog, m, hmapM.2 ⟨⟨texts, hreads, hscrape⟩, rfl⟩,
      Action.pure_run_eq_ok.2 ⟨rfl, rfl⟩⟩

theorem scanLogs_run {logs : List Path} {texts : List Text} {perLog : List (List Record)}
    (hreads : List.Forall₂ m.Reads logs texts)
    (hscrape : List.Forall₂ (fun text rs => layout.scrape text skip = .ok rs) texts perLog) :
    (scanLogs layout skip logs).run m = .ok (layout.gather perLog) m :=
  scanLogs_run_eq_ok.2 ⟨⟨texts, perLog, hreads, hscrape, rfl⟩, rfl⟩

/-! ## Logs in one file or in several -/

/-- Scanning several logs returns what is scraped from all of them in one. Each log has to
end its last line and to be free of faults; a log of Maven may not lose a record by its
number. -/
theorem scanLogs_eq_scrape_flatten {logs : List Path} {texts : List Text}
    (hreads : List.Forall₂ m.Reads logs texts)
    (hclosed : ∀ text ∈ texts, Log.IsClosed text)
    (hscrape : ∀ text ∈ texts, ∃ rs, layout.scrape text skip = .ok rs)
    (hskip : layout = .maven → ∀ n, ∀ word ∈ skip, ¬ word <:+: Record.blobName n) :
    ∃ rs, (scanLogs layout skip logs).run m = .ok rs m ∧
      layout.scrape texts.flatten skip = .ok rs := by
  obtain ⟨perLog, hperLog⟩ := exists_forall₂ hscrape
  refine ⟨layout.gather perLog, scanLogs_run hreads hperLog, ?_⟩
  refine Layout.scrape_flatten hclosed ?_ hperLog
  intro hlayout n hn
  obtain ⟨word, hword, hinfix⟩ := Record.skipsNumber_iff.1 hn
  exact hskip hlayout n word hword hinfix

/-- Each log counts its records from zero, and the scan counts them on. -/
theorem scanLogs_eq_scrape_flatten_two :
    let text := "[DEBUG] -d 0 -parameters\n[DEBUG] -d 1 -parameters\n".toList
    let text' := "[DEBUG] -d 2 -parameters\r\n".toList
    let machine := Machine.ofLogs [("first".toList, text), ("second".toList, text')]
    ∃ rs, (scanLogs .maven Settings.defaultSkipTasks [⟨"first".toList⟩, ⟨"second".toList⟩]).run
        machine = .ok rs machine ∧
      Layout.maven.scrape [text, text'].flatten Settings.defaultSkipTasks = .ok rs := by
  refine scanLogs_eq_scrape_flatten
    (.cons (Machine.reads_of_encode (by cbv)) (.cons (Machine.reads_of_encode (by cbv)) .nil))
    ?_ ?_ ?_
  · simp only [List.forall_mem_cons]
    exact ⟨.inr (by decide), .inr (by decide), by simp⟩
  · intro text _
    exact ⟨_, Layout.records_maven (Log.lines text) _⟩
  · intro _ n word hword hinfix
    exact Record.not_skipsNumber_default n (Record.skipsNumber_iff.2 ⟨word, hword, hinfix⟩)

end Program

end BuildLog
