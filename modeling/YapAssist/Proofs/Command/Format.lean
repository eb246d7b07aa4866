import YapAssist.Proofs.Command.Progress
import YapAssist.Proofs.Layout.Edit

/-!
# Checking files and laying them out

The two modes of the formatting command, one beside the other and one behind the other:

* `check_predicts_format`, a check of some files prints those that formatting would write;
* `check_after_format`, a check of a file that has just been formatted prints nothing, unless its
  layout leaves something to do.
-/

namespace YapAssist.Command

/-! ## Checking instead of formatting -/

theorem exists_of_mem_due {root : Listing} {jobs : List Job} {job : Job} (h : job ∈ due root jobs) :
    job ∈ jobs ∧ ∃ text edit, root.read job.file = .ok text ∧
      job.settings.formatEdit? text = some edit ∧
      job.result? root = some (Edit.applyAll text [edit]) := by
  obtain ⟨hjob, hdue⟩ := List.mem_filter.1 h
  obtain ⟨result, hresult⟩ := Option.isSome_iff_exists.1 hdue
  obtain ⟨text, htext, hsome⟩ := Option.bind_eq_some_iff.1 hresult
  obtain ⟨edit, hedit, rfl⟩ := Option.map_eq_some_iff.1 hsome
  exact ⟨hjob, text, edit, eq_ok_of_toOption htext, hedit, hresult⟩

/-- A check writes nothing. Where nothing goes wrong it prints the files that formatting prints as
formatted, and fails if there are any; formatting writes their layouts, and nothing else. -/
theorem check_predicts_format (root : Listing) (currentDir : Bytes) (paths : List Text)
    (indent : Option Nat) :
    (run root currentDir (.format paths true indent)).root = root ∧
      (root.Proper → Formattable root currentDir indent paths →
        let found := due root (jobs root currentDir indent paths)
        let checked := run root currentDir (.format paths true indent)
        let formatted := run root currentDir (.format paths false indent)
        checked.printed = found.map (fun job => Path.display currentDir job.file) ∧
        formatted.printed = checked.printed.map ("Formatted ".toList ++ ·) ∧
        checked.failure = (if found = [] then none else some (.notFormatted found.length)) ∧
        formatted.failure = none ∧
        (∀ job ∈ found, ∃ text edit, root.read job.file = .ok text ∧
          job.settings.formatEdit? text = some edit ∧
          formatted.root.read job.file = .ok (Edit.applyAll text [edit])) ∧
        ∀ names content, (∀ job ∈ found, job.file ≠ Path.ofNames names) →
          (formatted.root.at? names = some (.file content) ↔
            root.at? names = some (.file content))) := by
  refine ⟨root_runFormat_check root currentDir paths indent, ?_⟩
  intro h hpaths found checked formatted
  have hspells : ∀ job ∈ jobs root currentDir indent paths, root.Spells job.file :=
    fun job hjob => spells_of_mem_jobs h hjob
  have hchecked : checked =
      finish true (progress root currentDir true (jobs root currentDir indent paths)) :=
    runFormat_eq h hpaths true
  have hformatted : formatted =
      progress root currentDir false (jobs root currentDir indent paths) :=
    runFormat_eq h hpaths false
  have hprinted : checked.printed = found.map fun job => Path.display currentDir job.file := by
    rw [hchecked, printed_finish]
    rfl
  refine ⟨hprinted, ?_, ?_, ?_, ?_, ?_⟩
  · rw [hprinted, List.map_map, hformatted]
    rfl
  · rw [hchecked]
    exact failure_finish root currentDir _
  · rw [hformatted]
    rfl
  · intro job hjob
    obtain ⟨hjob, text, edit, hread, hedit, hresult⟩ := exists_of_mem_due hjob
    refine ⟨text, edit, hread, hedit, ?_⟩
    rw [hformatted]
    exact read_written h hspells hpaths.ready.once hjob hresult
  · intro names content hother
    rw [hformatted]
    exact at?_written h hspells hother content

/-- A directory with settings of its own, in which one of two source files is laid out, and two
files beside it. -/
def sampleTree : Listing :=
  .file (Text.bytes "notes".toList) (.text "  z".toList)
    (.dir (Text.bytes "lib".toList)
      (.file (Text.bytes "b.yap".toList) (.text "if(x)\x7by\x7d".toList)
        (.file (Text.bytes "a.yap".toList) (.text "y\n".toList)
          (.file (Text.bytes "yap-tools.json".toList)
            (.text "\x7b\"indent_width\": 2\x7d".toList) .nil)))
      (.file (Text.bytes "main.yap".toList) (.text " x\n".toList) .nil))

/-- Of the files on this command line a check prints the two that are not laid out, and formatting
leaves the one alone that is not on it. -/
theorem check_predicts_format_sampleTree :
    sampleTree.Proper ∧
      Formattable sampleTree [Path.slash] none ["lib".toList, "main.yap".toList] ∧
      (run sampleTree [Path.slash] (.format ["lib".toList, "main.yap".toList] true none)).printed =
        ["lib/b.yap".toList, "main.yap".toList] ∧
      (run sampleTree [Path.slash] (.format ["lib".toList, "main.yap".toList] true none)).failure =
        some (.notFormatted 2) ∧
      (run sampleTree [Path.slash] (.format ["lib".toList, "main.yap".toList] false none)).printed =
        ["Formatted lib/b.yap".toList, "Formatted main.yap".toList] ∧
      (run sampleTree [Path.slash] (.format ["lib".toList, "main.yap".toList] false none)).root.at?
        [Text.bytes "notes".toList] = some (.file (.text "  z".toList)) := by
  have hproper : sampleTree.Proper := by decide +kernel
  have hpaths : Formattable sampleTree [Path.slash] none ["lib".toList, "main.yap".toList] := by
    decide +kernel
  have hfound : due sampleTree (jobs sampleTree [Path.slash] none ["lib".toList, "main.yap".toList]) =
      [⟨{ Settings.default with indentWidth := 2 }, Text.bytes "/lib/b.yap".toList⟩,
        ⟨Settings.default, Text.bytes "/main.yap".toList⟩] := by
    decide +kernel
  obtain ⟨hchecked, hformatted, hfailure, -, -, hothers⟩ :=
    (check_predicts_format sampleTree [Path.slash] ["lib".toList, "main.yap".toList] none).2 hproper hpaths
  rw [hfound] at hchecked hfailure hothers
  refine ⟨hproper, hpaths, hchecked, hfailure, ?_, ?_⟩
  · rw [hformatted, hchecked]
    decide +kernel
  · rw [hothers _ _ (by decide +kernel)]
    decide +kernel

/-! ## Checking after formatting -/

section
variable {root : Listing} (h : root.Proper) {currentDir : Bytes} {indent : Option Nat}
  {arg text : Text} {path : Bytes} {settings : Settings}
  (htarget : formatTarget root currentDir indent arg = .ok (path, settings))
  (hread : root.read path = .ok text)
include h htarget hread

/-- A single file is left with its text after its formatting edit. -/
theorem read_run_file : (run root currentDir (.format [arg] false indent)).root.read path =
    .ok (Layout.afterEdit settings.indentWidth text) := by
  have hspells : ∀ job ∈ [Job.mk settings path], root.Spells job.file := by
    simpa using spells_file h htarget hread
  have hrun : run root currentDir (.format [arg] false indent) =
      progress root currentDir false [⟨settings, path⟩] := runFormat_file h htarget hread false
  rw [hrun]
  show (root.overwrite (written root [⟨settings, path⟩])).read path = _
  have hresult : (Job.mk settings path).result? root =
      (settings.formatEdit? text).map fun edit => Edit.applyAll text [edit] := result?_eq hread
  unfold Layout.afterEdit
  cases hedit : settings.formatEdit? text with
  | none =>
    rw [hedit] at hresult
    have hnone : Layout.edit? settings.indentWidth text = none := hedit
    rw [written_of_none hresult, Listing.overwrite_nil, hread, hnone]
    rfl
  | some edit =>
    rw [hedit] at hresult
    have hsome : Layout.edit? settings.indentWidth text = some edit := hedit
    rw [hsome]
    exact read_written h hspells (by simp) (List.mem_singleton_self _) hresult

/-- Checking a single file finds it exactly if there is a formatting edit. -/
theorem check_file : (run root currentDir (.format [arg] true indent)).printed = [] ∧
    (run root currentDir (.format [arg] true indent)).exitCode = 0 ↔
      settings.formatEdit? text = none := by
  have hrun : run root currentDir (.format [arg] true indent) =
      finish true (progress root currentDir true [⟨settings, path⟩]) :=
    runFormat_file h htarget hread true
  have hdue : due root [⟨settings, path⟩] = [] ↔ settings.formatEdit? text = none := by
    have hresult : (Job.mk settings path).result? root =
        (settings.formatEdit? text).map fun edit => Edit.applyAll text [edit] := result?_eq hread
    simp [due, hresult]
  rw [hrun, printed_finish, Run.exitCode, failure_finish, ← hdue]
  by_cases hnone : due root [⟨settings, path⟩] = []
  · simp [progress, hnone]
  · simp [progress, hnone]

end

/-- After formatting, a check of the same file with the same indentation finds nothing, if the text
was legible and had no stray carriage return; with one the check finds the file again. -/
theorem check_after_format {text : Text} (hlegible : Layout.Legible text) :
    (∀ settings : Settings,
      settings.formatEdit? (Layout.afterEdit settings.indentWidth text) = none ↔
        ¬ Layout.StrayReturn text) ∧
      ∀ (root : Listing) (currentDir : Bytes) (indent : Option Nat) (arg : Text)
        (path : Bytes) (settings : Settings), root.Proper →
        formatTarget root currentDir indent arg = .ok (path, settings) →
        root.read path = .ok text →
        let formatted := run root currentDir (.format [arg] false indent)
        formatted.exitCode = 0 ∧
        (Plain path →
          formatTarget formatted.root currentDir indent arg = .ok (path, settings)) ∧
        ∀ (again : Option Nat) (settings' : Settings),
          formatTarget formatted.root currentDir again arg = .ok (path, settings') →
          settings'.indentWidth = settings.indentWidth →
          let checked := run formatted.root currentDir (.format [arg] true again)
          (checked.printed = [] ∧ checked.exitCode = 0 ↔ ¬ Layout.StrayReturn text) := by
  have htext : ∀ settings : Settings,
      settings.formatEdit? (Layout.afterEdit settings.indentWidth text) = none ↔
        ¬ Layout.StrayReturn text :=
    fun settings => Layout.edit?_afterEdit hlegible settings.indentWidth
  refine ⟨htext, ?_⟩
  intro root currentDir indent arg path settings h htarget hread formatted
  have hformatted : formatted = progress root currentDir false [⟨settings, path⟩] :=
    runFormat_file h htarget hread false
  refine ⟨?_, ?_, ?_⟩
  · rw [hformatted]
    rfl
  · intro hplain
    have hspells : ∀ job ∈ [Job.mk settings path], root.Spells job.file := by
      simpa using spells_file h htarget hread
    rw [hformatted, formatTarget_progress h hspells, htarget]
    intro job hjob
    rw [List.mem_singleton.1 hjob]
    exact hplain
  · intro again settings' htarget' hwidth checked
    have hproper : formatted.root.Proper := by
      rw [hformatted]
      exact h.mapFiles _ []
    have hread' := read_run_file h htarget hread
    rw [check_file hproper htarget' hread', ← hwidth]
    exact htext settings'

/-- Formatting the only file of a disk. -/
def formatSole (text : Text) : Run :=
  run (.file (Text.bytes "a.yap".toList) (.text text) .nil) [Path.slash] (.format ["a.yap".toList] false none)

/-- Checking it afterwards. -/
def checkSole (text : Text) : Run :=
  run (formatSole text).root [Path.slash] (.format ["a.yap".toList] true none)

/-- One run of the formatter is enough for an inline body with a comment behind it. -/
theorem check_after_format_inline_body :
    Layout.Legible "if(x)\x7by\x7d // z\r\n".toList ∧
      (formatSole "if(x)\x7by\x7d // z\r\n".toList).printed = ["Formatted a.yap".toList] ∧
      (checkSole "if(x)\x7by\x7d // z\r\n".toList).printed = [] ∧
      (checkSole "if(x)\x7by\x7d // z\r\n".toList).exitCode = 0 := by
  have hlegible : Layout.Legible "if(x)\x7by\x7d // z\r\n".toList :=
    Layout.legible_of_bracesOutside (by decide +kernel)
  have hstray : ¬ Layout.StrayReturn "if(x)\x7by\x7d // z\r\n".toList := by
    intro hstray
    exact absurd hstray.1 (by decide)
  refine ⟨hlegible, by decide +kernel, ?_⟩
  obtain ⟨-, htarget, hchecked⟩ := (check_after_format hlegible).2
    (.file (Text.bytes "a.yap".toList) (.text "if(x)\x7by\x7d // z\r\n".toList) .nil) [Path.slash] none
    "a.yap".toList (Text.bytes "/a.yap".toList) Settings.default (by decide +kernel)
    (eq_ok_of_toOption (by decide +kernel)) rfl
  exact (hchecked none Settings.default (htarget (by decide +kernel)) rfl).2 hstray

/-- A carriage return behind the last statement, a keyword behind a closing brace and the end of a
header inside a literal each leave something to do for another run. -/
theorem check_after_format_again :
    ((formatSole "  x\r".toList).exitCode = 0 ∧
      (checkSole "  x\r".toList).printed = ["a.yap".toList] ∧
      (checkSole "  x\r".toList).exitCode = 1) ∧
    ((formatSole "\x7d while(x)\x7b y \x7d".toList).exitCode = 0 ∧
      (checkSole "\x7d while(x)\x7b y \x7d".toList).printed = ["a.yap".toList] ∧
      (checkSole "\x7d while(x)\x7b y \x7d".toList).exitCode = 1) ∧
    (formatSole "if (\")\x7b // \") \x7b\nx".toList).exitCode = 0 ∧
      (checkSole "if (\")\x7b // \") \x7b\nx".toList).printed = ["a.yap".toList] ∧
      (checkSole "if (\")\x7b // \") \x7b\nx".toList).exitCode = 1 := by
  decide +kernel

end YapAssist.Command
