import YapAssist.Command.Run
import YapAssist.Proofs.Disk.Overwrite

/-!
# The progress of a formatting run

Both modes of the formatting command go through the same files in the same order. Laying out
replaces contents on the way, so that what is read and looked up later may differ. It does not as
long as no file is met twice and no settings file is met at all: after each step the run is the one
computed from the tree at the beginning (`progress`, `formatFile_progress`, `formatPath_progress`).

* `root_runFormat_check`, a check writes nothing;
* `runFormat_eq`, what either mode prints and writes, and how it ends;
* `runFormat_file`, the same for a single file, which may hold settings;
* `read_written`, `at?_written`, the files when the run is over.
-/

namespace YapAssist

/-! ## Steps of a run -/

section
variable {ε α : Type} {result : Except ε α}

theorem exists_of_isOk (h : result.isOk = true) : ∃ a, result = .ok a := by
  cases result with
  | error e => exact absurd h (by simp [Except.isOk, Except.toBool])
  | ok a => exact ⟨a, rfl⟩

theorem eq_ok_of_toOption {a : α} (h : result.toOption = some a) : result = .ok a := by
  cases result with
  | error e => exact absurd h (by simp [Except.toOption])
  | ok b => rw [Option.some.inj h]

end

namespace Run

theorem step_of_none {run : Run} (h : run.failure = none) (f : Run → Run) : run.step f = f run := by
  rw [step, h]
  rfl

theorem root_step {run : Run} {f : Run → Run} (h : (f run).root = run.root) :
    (run.step f).root = run.root := by
  unfold step
  split
  · rfl
  · exact h

theorem attempt_ok {α : Type} (run : Run) (a : α) (f : α → Run → Run) :
    run.attempt (.ok a) f = f a run := rfl

theorem root_attempt {α : Type} {run : Run} {result : Except Failure α} {f : α → Run → Run}
    (h : ∀ a, (f a run).root = run.root) : (run.attempt result f).root = run.root := by
  unfold attempt
  split
  · exact h _
  · rfl

theorem root_foldl {α : Type} {f : Run → α → Run} (h : ∀ run a, (f run a).root = run.root)
    (run : Run) (as : List α) : (as.foldl f run).root = run.root := by
  induction as generalizing run with
  | nil => rfl
  | cons a as ih => rw [List.foldl_cons, ih, h]

end Run

namespace Command

/-! ## Checking -/

theorem root_formatFile_check (currentDir : Bytes) (settings : Settings) (run : Run) (file : Bytes) :
    (formatFile currentDir true settings run file).root = run.root := by
  unfold formatFile
  apply Run.root_attempt
  intro text
  split <;> rfl

theorem root_formatPath_check (currentDir : Bytes) (indent : Option Nat) (run : Run) (arg : Text) :
    (formatPath currentDir true indent run arg).root = run.root := by
  unfold formatPath
  apply Run.root_attempt
  intro target
  apply Run.root_foldl
  intro run file
  exact Run.root_step (root_formatFile_check currentDir target.2 run file)

/-- A check leaves the tree as it is, however it ends. -/
theorem root_runFormat_check (root : Listing) (currentDir : Bytes) (paths : List Text)
    (indent : Option Nat) : (runFormat root currentDir paths true indent).root = root := by
  unfold runFormat
  rw [Run.root_step, Run.root_foldl]
  · rfl
  · intro run arg
    exact Run.root_step (root_formatPath_check currentDir indent run arg)
  · split <;> rfl

/-! ## The files of a run -/

/-- A file to lay out, and the settings for it. -/
structure Job where
  settings : Settings
  file : Bytes
  deriving DecidableEq

/-- What is written to the file; `none` when its text is laid out already, or there is none. -/
def Job.result? (root : Listing) (job : Job) : Option Text :=
  (root.read job.file).toOption.bind fun text =>
    (job.settings.formatEdit? text).map fun edit => Edit.applyAll text [edit]

theorem result?_eq {root : Listing} {job : Job} {text : Text}
    (h : root.read job.file = .ok text) :
    job.result? root =
      (job.settings.formatEdit? text).map fun edit => Edit.applyAll text [edit] := by
  rw [Job.result?, h]
  rfl

/-- The files that one path on the command line stands for. -/
def jobsAt (root : Listing) (currentDir : Bytes) (indent : Option Nat) (arg : Text) : List Job :=
  match formatTarget root currentDir indent arg with
  | .ok (path, settings) => (root.collect settings path).map (Job.mk settings)
  | .error _ => []

/-- The files that all paths on the command line stand for, in the order they are met. -/
def jobs (root : Listing) (currentDir : Bytes) (indent : Option Nat) (paths : List Text) :
    List Job :=
  paths.flatMap (jobsAt root currentDir indent)

/-- The files that are not laid out. -/
def due (root : Listing) (jobs : List Job) : List Job :=
  jobs.filter fun job => (job.result? root).isSome

/-- The line about a file that is not laid out. -/
def announce (currentDir : Bytes) (check : Bool) (file : Bytes) : Text :=
  if check then Path.display currentDir file
  else "Formatted ".toList ++ Path.display currentDir file

/-- What has been written when the given files are done, the last one first. -/
def written (root : Listing) (done : List Job) : List (List Bytes × Content) :=
  (done.filterMap fun job =>
    (job.result? root).map fun text => (Path.names job.file, Content.text text)).reverse

/-- The run when the given files are done. -/
def progress (root : Listing) (currentDir : Bytes) (check : Bool) (done : List Job) : Run where
  root := if check then root else root.overwrite (written root done)
  printed := (due root done).map fun job => announce currentDir check job.file
  failure := none

/-- Files that can be laid out one after the other: all can be read, and none comes twice. -/
structure Ready (root : Listing) (jobs : List Job) : Prop where
  readable : ∀ job ∈ jobs, (root.read job.file).isOk = true
  once : (jobs.map Job.file).Nodup

instance (root : Listing) (jobs : List Job) : Decidable (Ready root jobs) :=
  decidable_of_iff ((∀ job ∈ jobs, (root.read job.file).isOk = true) ∧ (jobs.map Job.file).Nodup)
    ⟨fun h => ⟨h.1, h.2⟩, fun h => ⟨h.readable, h.once⟩⟩

theorem Ready.left {root : Listing} {jobs more : List Job} (h : Ready root (jobs ++ more)) :
    Ready root jobs := by
  refine ⟨fun job hjob => h.readable job (List.mem_append_left _ hjob), ?_⟩
  have honce := h.once
  rw [List.map_append, List.nodup_append] at honce
  exact honce.1

/-- Whether a file is not named like a settings file. -/
def Plain (file : Bytes) : Prop := ∀ name ∈ Listing.settingsNames, Path.fileName? file ≠ some name

instance (file : Bytes) : Decidable (Plain file) :=
  inferInstanceAs (Decidable (∀ name ∈ Listing.settingsNames, Path.fileName? file ≠ some name))

/-- Command lines on which nothing goes wrong: all paths lead somewhere and have settings, the files
they stand for can be laid out one after the other, and none of them is a settings file. -/
structure Formattable (root : Listing) (currentDir : Bytes) (indent : Option Nat)
    (paths : List Text) : Prop where
  resolved : ∀ arg ∈ paths, (formatTarget root currentDir indent arg).isOk = true
  ready : Ready root (jobs root currentDir indent paths)
  plain : ∀ job ∈ jobs root currentDir indent paths, Plain job.file

instance (root : Listing) (currentDir : Bytes) (indent : Option Nat) (paths : List Text) :
    Decidable (Formattable root currentDir indent paths) :=
  decidable_of_iff ((∀ arg ∈ paths, (formatTarget root currentDir indent arg).isOk = true) ∧
      Ready root (jobs root currentDir indent paths) ∧
      ∀ job ∈ jobs root currentDir indent paths, Plain job.file)
    ⟨fun h => ⟨h.1, h.2.1, h.2.2⟩, fun h => ⟨h.resolved, h.ready, h.plain⟩⟩

/-! ## What has been written -/

theorem written_append (root : Listing) (s t : List Job) :
    written root (s ++ t) = written root t ++ written root s := by
  rw [written, List.filterMap_append, List.reverse_append]
  rfl

theorem written_of_none {root : Listing} {job : Job} (h : job.result? root = none) :
    written root [job] = [] := by
  simp [written, h]

theorem written_singleton {root : Listing} {job : Job} {text : Text}
    (h : job.result? root = some text) :
    written root [job] = [(Path.names job.file, .text text)] := by
  simp [written, h]

theorem due_append (root : Listing) (s t : List Job) :
    due root (s ++ t) = due root s ++ due root t :=
  List.filter_append s t

theorem mem_written {root : Listing} {done : List Job} {write : List Bytes × Content}
    (h : write ∈ written root done) : ∃ job ∈ due root done, Path.names job.file = write.1 := by
  rw [written, List.mem_reverse] at h
  obtain ⟨job, hjob, hwrite⟩ := List.mem_filterMap.1 h
  obtain ⟨text, htext, rfl⟩ := Option.map_eq_some_iff.1 hwrite
  refine ⟨job, List.mem_filter.2 ⟨hjob, ?_⟩, rfl⟩
  rw [htext]
  rfl

theorem lookup_written_eq_none {root : Listing} {done : List Job} {names : List Bytes}
    (h : ∀ job ∈ due root done, Path.names job.file ≠ names) :
    (written root done).lookup names = none := by
  rw [List.lookup_eq_none_iff]
  intro write hwrite
  obtain ⟨job, hjob, hnames⟩ := mem_written hwrite
  rw [bne_iff_ne]
  exact fun he => h job hjob (hnames.trans he.symm)

section
variable {root : Listing} (h : root.Proper) {currentDir : Bytes} {check : Bool}
  {indent : Option Nat} {done : List Job}
include h

theorem names_ne {path other : Bytes} (hpath : root.Spells path) (hother : root.Spells other)
    (hne : path ≠ other) : Path.names path ≠ Path.names other := by
  intro he
  apply hne
  rw [← (hpath.names h).1, he, (hother.names h).1]

/-- Every file of a run that is not laid out has been written. -/
theorem lookup_written (hspells : ∀ job ∈ done, root.Spells job.file)
    (honce : (done.map Job.file).Nodup) {job : Job} (hjob : job ∈ done) {text : Text}
    (htext : job.result? root = some text) :
    (written root done).lookup (Path.names job.file) = some (.text text) := by
  obtain ⟨before, later, rfl⟩ := List.append_of_mem hjob
  have hlater : (written root later).lookup (Path.names job.file) = none := by
    apply lookup_written_eq_none
    intro other hother
    have hother := (List.mem_filter.1 hother).1
    apply names_ne h (hspells other (by simp [hother])) (hspells job (by simp))
    rintro hfile
    simp only [List.map_append, List.map_cons, List.nodup_append, List.nodup_cons] at honce
    exact honce.2.1.1 (hfile ▸ List.mem_map_of_mem hother)
  have hcut : before ++ job :: later = before ++ ([job] ++ later) := rfl
  rw [hcut, written_append, written_append, List.append_assoc, List.lookup_append, hlater,
    Option.none_or, written_singleton htext]
  simp

/-! ## One file -/

/-- A file that is not done yet reads as at the beginning. -/
theorem read_progress (hspells : ∀ job ∈ done, root.Spells job.file) {file : Bytes}
    (hfile : root.Spells file) (hnew : ∀ job ∈ done, job.file ≠ file) :
    (progress root currentDir check done).root.read file = root.read file := by
  cases check with
  | true => rfl
  | false =>
    apply Listing.read_overwrite
    intro names hnames
    rw [(hfile.names h).2.1, Except.ok.injEq] at hnames
    apply lookup_written_eq_none
    intro job hjob
    have hjob := (List.mem_filter.1 hjob).1
    rw [← hnames]
    exact names_ne h (hspells job hjob) hfile (hnew job hjob)

omit h in
/-- What happens to one file depends on its text alone. -/
theorem formatFile_eq {job : Job} {run : Run} (hread : run.root.read job.file = root.read job.file)
    (hok : (root.read job.file).isOk = true) :
    formatFile currentDir check job.settings run job.file =
      (job.result? root).elim run fun text =>
        (if check then run else run.write job.file text).print
          (announce currentDir check job.file) := by
  obtain ⟨text, htext⟩ := exists_of_isOk hok
  have hsource : readSource run.root job.file = .ok text := by
    rw [readSource, hread, htext]
    rfl
  rw [result?_eq htext, formatFile, hsource, Run.attempt_ok]
  cases job.settings.formatEdit? text with
  | none => rfl
  | some edit => cases check <;> rfl

omit h in
/-- A file that is laid out changes nothing. -/
theorem progress_of_none {job : Job} (hresult : job.result? root = none) :
    progress root currentDir check (done ++ [job]) = progress root currentDir check done := by
  have hdue : due root [job] = [] := by simp [due, hresult]
  simp only [progress, due_append, hdue, written_append, written_of_none hresult,
    List.append_nil, List.nil_append]

/-- Any other file is announced, and written unless this is a check. -/
theorem progress_of_some {job : Job} (hjob : root.Spells job.file) {text : Text}
    (hresult : job.result? root = some text) :
    progress root currentDir check (done ++ [job]) =
      (if check then progress root currentDir check done
        else (progress root currentDir check done).write job.file text).print
          (announce currentDir check job.file) := by
  have hdue : due root [job] = [job] := by simp [due, hresult]
  obtain ⟨-, -, content, hat⟩ := hjob.names h
  simp only [progress, due_append, hdue, written_append, written_singleton hresult,
    List.map_append, List.map_singleton, List.singleton_append]
  cases check with
  | true => rfl
  | false =>
    simp only [Run.print, Run.write, Listing.write_overwrite h hat, Bool.false_eq_true, if_false]

/-- One more file is one more job done. -/
theorem formatFile_progress {job : Job} (hspells : ∀ j ∈ done ++ [job], root.Spells j.file)
    (hready : Ready root (done ++ [job])) :
    formatFile currentDir check job.settings (progress root currentDir check done) job.file =
      progress root currentDir check (done ++ [job]) := by
  have hjob : root.Spells job.file := hspells job (by simp)
  have hdone : ∀ j ∈ done, root.Spells j.file := fun j hj => hspells j (by simp [hj])
  have hnew : ∀ j ∈ done, j.file ≠ job.file := by
    have honce := hready.once
    rw [List.map_append, List.nodup_append] at honce
    intro j hj
    exact honce.2.2 j.file (List.mem_map_of_mem hj) job.file (by simp)
  rw [formatFile_eq (read_progress h hdone hjob hnew) (hready.readable job (by simp))]
  cases hresult : job.result? root with
  | none => exact (progress_of_none hresult).symm
  | some text => exact (progress_of_some h hjob hresult).symm

/-! ## All files of a path -/

/-- The files of one path are done in turn. -/
theorem foldl_formatFile {settings : Settings} {files : List Bytes}
    (hspells : ∀ job ∈ done ++ files.map (Job.mk settings), root.Spells job.file)
    (hready : Ready root (done ++ files.map (Job.mk settings))) :
    files.foldl (fun run file => run.step fun run => formatFile currentDir check settings run file)
        (progress root currentDir check done) =
      progress root currentDir check (done ++ files.map (Job.mk settings)) := by
  induction files generalizing done with
  | nil => simp
  | cons file files ih =>
    have hcut : done ++ (file :: files).map (Job.mk settings) =
        (done ++ [⟨settings, file⟩]) ++ files.map (Job.mk settings) := by simp
    rw [hcut] at hspells hready ⊢
    have hone : formatFile currentDir check settings (progress root currentDir check done) file =
        progress root currentDir check (done ++ [⟨settings, file⟩]) :=
      formatFile_progress h (fun job hjob => hspells job (List.mem_append_left _ hjob)) hready.left
    rw [List.foldl_cons, Run.step_of_none rfl, hone]
    exact ih hspells hready

omit h in
theorem collect_progress (settings : Settings) (path : Bytes) :
    (progress root currentDir check done).root.collect settings path =
      root.collect settings path := by
  cases check with
  | true => rfl
  | false => exact Listing.collect_mapFiles _ root settings path

/-- A path stands for the same as at the beginning if no settings file is done. -/
theorem formatTarget_progress (hspells : ∀ job ∈ done, root.Spells job.file)
    (hplain : ∀ job ∈ done, Plain job.file) (indent : Option Nat) (arg : Text) :
    formatTarget (progress root currentDir check done).root currentDir indent arg =
      formatTarget root currentDir indent arg := by
  cases check with
  | true => rfl
  | false =>
    have hsettings : (root.overwrite (written root done)).settingsFor = root.settingsFor := by
      funext path
      apply Listing.settingsFor_overwrite
      intro write hwrite name hname
      obtain ⟨job, hjob, hnames⟩ := mem_written hwrite
      have hjob := (List.mem_filter.1 hjob).1
      obtain ⟨ns, content, hfile, hat⟩ := hspells job hjob
      have hproper := (h.of_at? hat).1
      have hlast := hplain job hjob name hname
      rw [hfile, Path.fileName?_ofNames hproper] at hlast
      rw [← hnames, hfile, Path.names_ofNames hproper]
      exact hlast
    have hfollow : (root.overwrite (written root done)).follow = root.follow :=
      funext (Listing.follow_mapFiles _ root)
    show formatTarget (root.overwrite (written root done)) currentDir indent arg = _
    rw [formatTarget, formatTarget, resolve, resolve, hfollow]
    simp only [settingsFor, hsettings]

/-- One more path on the command line is some more files done. -/
theorem formatPath_progress {arg : Text}
    (hok : (formatTarget root currentDir indent arg).isOk = true)
    (hspells : ∀ job ∈ done ++ jobsAt root currentDir indent arg, root.Spells job.file)
    (hready : Ready root (done ++ jobsAt root currentDir indent arg))
    (hplain : ∀ job ∈ done, Plain job.file) :
    formatPath currentDir check indent (progress root currentDir check done) arg =
      progress root currentDir check (done ++ jobsAt root currentDir indent arg) := by
  have hdone : ∀ job ∈ done, root.Spells job.file :=
    fun job hjob => hspells job (List.mem_append_left _ hjob)
  rw [formatPath, formatTarget_progress h hdone hplain]
  obtain ⟨⟨path, settings⟩, htarget⟩ := exists_of_isOk hok
  have hjobs : jobsAt root currentDir indent arg =
      (root.collect settings path).map (Job.mk settings) := by
    rw [jobsAt, htarget]
  rw [hjobs] at hspells hready ⊢
  rw [htarget, Run.attempt_ok]
  show List.foldl _ (progress root currentDir check done) _ = _
  rw [collect_progress]
  exact foldl_formatFile h hspells hready

/-! ## The whole command -/

omit h in
/-- A path on the command line leads to an entry of the tree. -/
theorem exists_of_formatTarget {arg : Text} {path : Bytes} {settings : Settings}
    (htarget : formatTarget root currentDir indent arg = .ok (path, settings)) :
    ∃ names node, path = Path.ofNames names ∧ root.at? names = some node := by
  unfold formatTarget resolve at htarget
  cases hfollow : root.follow (Path.join currentDir arg.bytes) with
  | error fault => simp [hfollow, bind, Except.bind] at htarget
  | ok names =>
    obtain ⟨node, hat⟩ := Listing.exists_of_follow hfollow
    refine ⟨names, node, ?_, hat⟩
    cases hsettings : settingsFor root (Path.ofNames names) with
    | error failure => simp [hfollow, hsettings, bind, Except.bind] at htarget
    | ok found =>
      simp only [hfollow, hsettings, bind, Except.bind, pure, Except.pure, Except.ok.injEq,
        Prod.mk.injEq] at htarget
      exact htarget.1.symm

theorem spells_of_mem_jobsAt {arg : Text} {job : Job}
    (hjob : job ∈ jobsAt root currentDir indent arg) : root.Spells job.file := by
  rw [jobsAt] at hjob
  split at hjob
  · next path settings htarget =>
    obtain ⟨names, node, rfl, hat⟩ := exists_of_formatTarget htarget
    obtain ⟨file, hfile, rfl⟩ := List.mem_map.1 hjob
    exact Listing.spells_of_mem_collect h hat hfile
  · simp at hjob

theorem spells_of_mem_jobs {paths : List Text} {job : Job}
    (hjob : job ∈ jobs root currentDir indent paths) : root.Spells job.file := by
  obtain ⟨arg, -, hjob⟩ := List.mem_flatMap.1 hjob
  exact spells_of_mem_jobsAt h hjob

/-- The paths on the command line are done in turn. -/
theorem foldl_formatPath {paths : List Text}
    (hok : ∀ arg ∈ paths, (formatTarget root currentDir indent arg).isOk = true)
    (hspells : ∀ job ∈ done, root.Spells job.file)
    (hready : Ready root (done ++ jobs root currentDir indent paths))
    (hplain : ∀ job ∈ done ++ jobs root currentDir indent paths, Plain job.file) :
    paths.foldl (fun run arg => run.step fun run => formatPath currentDir check indent run arg)
        (progress root currentDir check done) =
      progress root currentDir check (done ++ jobs root currentDir indent paths) := by
  induction paths generalizing done with
  | nil => simp [jobs]
  | cons arg paths ih =>
    have hcut : done ++ jobs root currentDir indent (arg :: paths) =
        (done ++ jobsAt root currentDir indent arg) ++ jobs root currentDir indent paths := by
      simp [jobs]
    rw [hcut] at hready hplain ⊢
    have hfirst : ∀ job ∈ done ++ jobsAt root currentDir indent arg, root.Spells job.file := by
      intro job hjob
      rcases List.mem_append.1 hjob with hjob | hjob
      · exact hspells job hjob
      · exact spells_of_mem_jobsAt h hjob
    rw [List.foldl_cons, Run.step_of_none rfl,
      formatPath_progress h (hok arg List.mem_cons_self) hfirst hready.left
        fun job hjob => hplain job (by simp [hjob])]
    exact ih (fun arg harg => hok arg (List.mem_cons_of_mem _ harg)) hfirst hready hplain

end

/-- The end of a command: a check that found something fails. -/
def finish (check : Bool) (run : Run) : Run :=
  if check && !run.printed.isEmpty then run.fail (.notFormatted run.printed.length) else run

@[simp] theorem printed_finish (check : Bool) (run : Run) :
    (finish check run).printed = run.printed := by
  unfold finish
  split <;> rfl

theorem failure_finish (root : Listing) (currentDir : Bytes) (jobs : List Job) :
    (finish true (progress root currentDir true jobs)).failure =
      if due root jobs = [] then none else some (.notFormatted (due root jobs).length) := by
  unfold finish
  by_cases hdue : due root jobs = []
  · simp [progress, hdue]
  · simp [progress, hdue, Run.fail]

theorem start_eq (root : Listing) (currentDir : Bytes) (check : Bool) :
    Run.start root = progress root currentDir check [] := by
  cases check with
  | true => rfl
  | false => simp [progress, Run.start, due, written, Listing.overwrite_nil]

section
variable {root : Listing} (h : root.Proper) {currentDir : Bytes} {indent : Option Nat}
include h

/-- What a formatting command does, computed from the tree at the beginning. -/
theorem runFormat_eq {paths : List Text} (hpaths : Formattable root currentDir indent paths)
    (check : Bool) :
    runFormat root currentDir paths check indent =
      finish check (progress root currentDir check (jobs root currentDir indent paths)) := by
  have hnone : ∀ job ∈ ([] : List Job), root.Spells job.file := by simp
  rw [runFormat, start_eq root currentDir check,
    foldl_formatPath h hpaths.resolved hnone hpaths.ready hpaths.plain, Run.step_of_none rfl]
  rfl

section
variable {arg text : Text} {path : Bytes} {settings : Settings}
  (htarget : formatTarget root currentDir indent arg = .ok (path, settings))
  (hread : root.read path = .ok text)
include htarget hread

omit h in
theorem jobsAt_file : jobsAt root currentDir indent arg = [⟨settings, path⟩] := by
  rw [jobsAt, htarget]
  show (root.collect settings path).map (Job.mk settings) = _
  rw [Listing.collect_of_read hread, List.map_singleton]

theorem spells_file : root.Spells path := by
  have hjob : ⟨settings, path⟩ ∈ jobsAt root currentDir indent arg := by
    rw [jobsAt_file htarget hread]
    exact List.mem_singleton_self _
  exact spells_of_mem_jobsAt h hjob

/-- A single file is laid out also when it holds settings. -/
theorem runFormat_file (check : Bool) :
    runFormat root currentDir [arg] check indent =
      finish check (progress root currentDir check [⟨settings, path⟩]) := by
  have hjobs := jobsAt_file htarget hread
  have hspells := spells_file h htarget hread
  have hready : Ready root [⟨settings, path⟩] := by
    refine ⟨?_, by simp⟩
    intro job hjob
    rw [List.mem_singleton.1 hjob]
    simp [hread, Except.isOk, Except.toBool]
  have hok : (formatTarget root currentDir indent arg).isOk = true := by
    simp [htarget, Except.isOk, Except.toBool]
  have hpath : formatPath currentDir check indent (progress root currentDir check []) arg =
      progress root currentDir check ([] ++ jobsAt root currentDir indent arg) := by
    apply formatPath_progress h hok
    · simpa [hjobs] using hspells
    · simpa [hjobs] using hready
    · simp
  have hrun : [arg].foldl (fun run arg => run.step fun run =>
      formatPath currentDir check indent run arg) (progress root currentDir check []) =
      progress root currentDir check [⟨settings, path⟩] := by
    rw [List.foldl_cons, List.foldl_nil, Run.step_of_none rfl, hpath, hjobs, List.nil_append]
  rw [runFormat, start_eq root currentDir check, hrun, Run.step_of_none rfl]
  rfl

end

/-! ## Files when a run is over -/

/-- A file that is not laid out reads as its layout afterwards. -/
theorem read_written {done : List Job} (hspells : ∀ job ∈ done, root.Spells job.file)
    (honce : (done.map Job.file).Nodup) {job : Job} (hjob : job ∈ done) {text : Text}
    (htext : job.result? root = some text) :
    (root.overwrite (written root done)).read job.file = .ok text := by
  obtain ⟨-, hfollow, content, hat⟩ := (hspells job hjob).names h
  exact Listing.read_overwrite_of_lookup hfollow hat (lookup_written h hspells honce hjob htext)

/-- All other files are as before. -/
theorem at?_written {done : List Job} (hspells : ∀ job ∈ done, root.Spells job.file)
    {names : List Bytes} (hother : ∀ job ∈ due root done, job.file ≠ Path.ofNames names)
    (content : Content) :
    (root.overwrite (written root done)).at? names = some (.file content) ↔
      root.at? names = some (.file content) := by
  apply Listing.at?_overwrite_of_lookup
  apply lookup_written_eq_none
  intro job hjob hnames
  apply hother job hjob
  rw [← hnames, ((hspells job (List.mem_filter.1 hjob).1).names h).1]

end

end Command

end YapAssist
