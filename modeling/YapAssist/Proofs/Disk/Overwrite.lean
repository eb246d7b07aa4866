import YapAssist.Disk.Settings
import YapAssist.Disk.Walk
import YapAssist.Proofs.Disk.Tree

/-!
# Trees that differ in contents only

Writing a file that exists changes its contents and nothing else: the tree after any number of such
writes is the tree before with some contents replaced (`Listing.overwrite`). One more write is one
more replacement (`Listing.write_overwrite`). What depends on names alone is the same in both trees:

* `Listing.follow_mapFiles`, where paths lead;
* `Listing.collect_mapFiles`, what a path on the command line stands for, and
  `Listing.spells_of_mem_collect`, that these are files of the tree;
* `Listing.settingsFor_overwrite`, the settings of a path, as long as no settings file is written.
-/

namespace YapAssist

/-! ## Contents replaced throughout a tree -/

namespace Listing

/-- A listing with the contents of every file replaced by what `f` makes of them; the listing is
that of the directory with the names `above`. -/
def mapFiles (f : List Bytes → Content → Content) (above : List Bytes) : Listing → Listing
  | nil => nil
  | file name content rest => file name (f (above ++ [name]) content) (mapFiles f above rest)
  | dir name entries rest =>
    dir name (mapFiles f (above ++ [name]) entries) (mapFiles f above rest)

end Listing

/-- The same for the entry with the given names. -/
def Node.mapFiles (f : List Bytes → Content → Content) (names : List Bytes) : Node → Node
  | .file content => .file (f names content)
  | .dir entries => .dir (entries.mapFiles f names)

namespace Listing

section
variable (f g : List Bytes → Content → Content)

@[simp] theorem entryNames_mapFiles (above : List Bytes) (l : Listing) :
    (l.mapFiles f above).entryNames = l.entryNames := by
  induction l with
  | nil => rfl
  | file name content rest ih => rw [mapFiles, entryNames, entryNames, ih]
  | dir name entries rest _ ih => rw [mapFiles, entryNames, entryNames, ih]

theorem find?_mapFiles (above : List Bytes) (l : Listing) (name : Bytes) :
    (l.mapFiles f above).find? name =
      (l.find? name).map (Node.mapFiles f (above ++ [name])) := by
  induction l with
  | nil => rfl
  | file n content rest ih =>
    rw [mapFiles, find?, find?, ih]
    by_cases h : n = name
    · rw [if_pos h, if_pos h, h]
      rfl
    · rw [if_neg h, if_neg h]
  | dir n entries rest _ ih =>
    rw [mapFiles, find?, find?, ih]
    by_cases h : n = name
    · rw [if_pos h, if_pos h, h]
      rfl
    · rw [if_neg h, if_neg h]

theorem at?_mapFiles (above : List Bytes) (l : Listing) (names : List Bytes) :
    (l.mapFiles f above).at? names = (l.at? names).map (Node.mapFiles f (above ++ names)) := by
  induction names generalizing above l with
  | nil =>
    rw [at?, at?, List.append_nil]
    rfl
  | cons name names ih =>
    have habove : above ++ name :: names = (above ++ [name]) ++ names := by simp
    rw [at?_cons, at?_cons, find?_mapFiles, Option.bind_map, Option.map_bind, habove]
    congr 1
    funext node
    cases node with
    | file content =>
      -- nothing lies below a file
      cases names with
      | nil =>
        rw [List.append_nil]
        rfl
      | cons next names => rfl
    | dir entries =>
      show (Node.dir (entries.mapFiles f (above ++ [name]))).at? names = _
      rw [Node.at?_dir, ih, Function.comp_apply, Node.at?_dir]

theorem mapFiles_mapFiles (above : List Bytes) (l : Listing) :
    (l.mapFiles f above).mapFiles g above =
      l.mapFiles (fun names content => g names (f names content)) above := by
  induction l generalizing above with
  | nil => rfl
  | file name content rest ih => rw [mapFiles, mapFiles, mapFiles, ih]
  | dir name entries rest inside ih => rw [mapFiles, mapFiles, mapFiles, inside, ih]

theorem Proper.mapFiles {l : Listing} (h : l.Proper) (above : List Bytes) :
    (l.mapFiles f above).Proper := by
  induction l generalizing above with
  | nil => trivial
  | file name content rest ih =>
    refine ⟨h.1, ?_, ih h.2.2 above⟩
    rw [entryNames_mapFiles]
    exact h.2.1
  | dir name entries rest inside ih =>
    refine ⟨h.1, ?_, inside h.2.2.1 _, ih h.2.2.2 above⟩
    rw [entryNames_mapFiles]
    exact h.2.1

/-- What leaves the contents of every file below a listing alone leaves the listing alone. -/
theorem mapFiles_eq_self {above : List Bytes} {l : Listing}
    (h : ∀ name ∈ l.entryNames, ∀ below content,
      f (above ++ name :: below) content = content) : l.mapFiles f above = l := by
  induction l generalizing above with
  | nil => rfl
  | file name content rest ih =>
    rw [mapFiles, h name List.mem_cons_self [] content,
      ih fun n hn => h n (List.mem_cons_of_mem _ hn)]
  | dir name entries rest inside ih =>
    rw [mapFiles, ih fun n hn => h n (List.mem_cons_of_mem _ hn), inside]
    intro n _ below content
    rw [List.append_assoc, List.singleton_append]
    exact h name List.mem_cons_self (n :: below) content

/-! ## What depends on names alone -/

theorem followFrom_mapFiles (root : Listing) (here segments : List Bytes) :
    (root.mapFiles f []).followFrom here segments = root.followFrom here segments := by
  induction segments generalizing here with
  | nil => rfl
  | cons segment segments ih =>
    rw [followFrom, followFrom, at?_mapFiles]
    cases hhere : root.at? here with
    | none => rfl
    | some node =>
      cases node with
      | file content => rfl
      | dir entries =>
        simp only [Option.map_some, Node.mapFiles, find?_mapFiles, ih]
        cases entries.find? segment <;> rfl

theorem follow_mapFiles (root : Listing) (path : Bytes) :
    (root.mapFiles f []).follow path = root.follow path :=
  followFrom_mapFiles f root [] _

/-- A path leads to the same entry, up to contents. -/
theorem exists_node?_mapFiles (root : Listing) (path : Bytes) :
    ∃ names, (root.mapFiles f []).node? path = (root.node? path).map (Node.mapFiles f names) := by
  rw [node?, node?, follow_mapFiles]
  cases root.follow path with
  | error fault => exact ⟨[], rfl⟩
  | ok names => exact ⟨names, at?_mapFiles f [] root names⟩

theorem holds_mapFiles (root : Listing) (path : Bytes) :
    (root.mapFiles f []).holds path = root.holds path := by
  obtain ⟨names, hnode⟩ := exists_node?_mapFiles f root path
  rw [holds, holds, hnode, Option.isSome_map]

theorem isFile_mapFiles (root : Listing) (path : Bytes) :
    (root.mapFiles f []).isFile path = root.isFile path := by
  obtain ⟨names, hnode⟩ := exists_node?_mapFiles f root path
  rw [isFile, isFile, hnode]
  cases root.node? path with
  | none => rfl
  | some node => cases node <;> rfl

theorem sourcesByName_mapFiles (settings : Settings) (path : Bytes) (above : List Bytes)
    (l : Listing) :
    (l.mapFiles f above).sourcesByName settings path = l.sourcesByName settings path := by
  induction l generalizing path above with
  | nil => rfl
  | file name content rest ih => rw [mapFiles, sourcesByName, sourcesByName, ih]
  | dir name entries rest inside ih => rw [mapFiles, sourcesByName, sourcesByName, inside, ih]

/-- A path on the command line stands for the same files. -/
theorem collect_mapFiles (root : Listing) (settings : Settings) (path : Bytes) :
    (root.mapFiles f []).collect settings path = root.collect settings path := by
  obtain ⟨names, hnode⟩ := exists_node?_mapFiles f root path
  rw [collect, collect, hnode]
  cases root.node? path with
  | none => rfl
  | some node =>
    cases node with
    | file content => rfl
    | dir entries =>
      show sourcesIn settings path (entries.mapFiles f names) = sourcesIn settings path entries
      rw [sourcesIn, sourcesIn, sourcesByName_mapFiles]

end

/-! ## Writing -/

/-- The tree with the contents of some files replaced; of several entries for one file the first
counts. -/
def overwrite (root : Listing) (writes : List (List Bytes × Content)) : Listing :=
  root.mapFiles (fun names content => (writes.lookup names).getD content) []

theorem overwrite_nil (root : Listing) : root.overwrite [] = root :=
  mapFiles_eq_self _ fun _ _ _ _ => rfl

theorem at?_overwrite {root : Listing} {names : List Bytes} {content : Content}
    (h : root.at? names = some (.file content)) (writes : List (List Bytes × Content)) :
    (root.overwrite writes).at? names =
      some (.file ((writes.lookup names).getD content)) := by
  rw [overwrite, at?_mapFiles, h, List.nil_append]
  rfl

/-- The contents of one file replaced, of all others kept. -/
def replaceAt (target : List Bytes) (content : Content) (names : List Bytes) (old : Content) :
    Content :=
  if names = target then content else old

theorem mapFiles_replaceAt_of_ne {target above : List Bytes} {l : Listing}
    (h : ∀ name ∈ l.entryNames, ∀ below, above ++ name :: below ≠ target) (content : Content) :
    l.mapFiles (replaceAt target content) above = l := by
  apply mapFiles_eq_self
  intro name hname below c
  exact if_neg (h name hname below)

/-- Another name of the directory leads elsewhere. -/
theorem append_cons_ne {name other : Bytes} (h : other ≠ name) (above below more : List Bytes) :
    above ++ other :: below ≠ above ++ name :: more := by
  intro he
  rw [List.append_cancel_left_eq, List.cons.injEq] at he
  exact h he.1

/-- Writing a file of a proper listing replaces its contents. -/
theorem write_eq_mapFiles {l : Listing} (h : l.Proper) {names : List Bytes} {old : Content}
    (hat : l.at? names = some (.file old)) (content : Content) (above : List Bytes) :
    l.write names content = l.mapFiles (replaceAt (above ++ names) content) above := by
  -- only a directory lies at no names
  obtain ⟨name, more, rfl⟩ : ∃ name more, names = name :: more := by
    cases names with
    | nil => simp [at?] at hat
    | cons name more => exact ⟨name, more, rfl⟩
  induction l generalizing name more above with
  | nil => simp [at?_cons, find?] at hat
  | file n c rest ih =>
    have hrest : rest.mapFiles (replaceAt (above ++ n :: more) content) above = rest := by
      apply mapFiles_replaceAt_of_ne
      intro other hother below
      have hother : other ≠ n := fun he => h.2.1 (he ▸ hother)
      exact append_cons_ne hother above below more
    by_cases hn : n = name
    · -- nothing lies below a file, so the way ends here
      subst hn
      rw [at?_cons, find?, if_pos rfl, Option.bind_some] at hat
      cases more with
      | nil => rw [write, if_pos rfl, mapFiles, hrest, replaceAt, if_pos rfl]
      | cons next more => simp [Node.at?] at hat
    · have hnames : name :: more ≠ [n] := fun he => hn (List.cons.inj he).1.symm
      rw [at?_cons, find?, if_neg hn, ← at?_cons] at hat
      rw [write, if_neg hnames, mapFiles, ← ih h.2.2 above name more hat, replaceAt,
        if_neg (append_cons_ne hn above [] more)]
  | dir n entries rest inside ih =>
    by_cases hn : n = name
    · subst hn
      have hrest : rest.mapFiles (replaceAt (above ++ n :: more) content) above = rest := by
        apply mapFiles_replaceAt_of_ne
        intro other hother below
        have hother : other ≠ n := fun he => h.2.1 (he ▸ hother)
        exact append_cons_ne hother above below more
      have habove : above ++ n :: more = (above ++ [n]) ++ more := by simp
      rw [at?_cons, find?, if_pos rfl, Option.bind_some, Node.at?_dir] at hat
      cases more with
      | nil => simp [at?] at hat
      | cons next more =>
        rw [write, if_pos rfl, mapFiles, hrest, habove,
          inside h.2.2.1 (above ++ [n]) next more hat]
    · have hentries : entries.mapFiles (replaceAt (above ++ name :: more) content)
          (above ++ [n]) = entries := by
        apply mapFiles_replaceAt_of_ne
        intro other _ below
        rw [List.append_assoc]
        exact append_cons_ne hn above (other :: below) more
      have hwrite : (dir n entries rest).write (name :: more) content =
          dir n entries (rest.write (name :: more) content) := by
        cases more with
        | nil => rfl
        | cons next more => rw [write, if_neg (Ne.symm hn)]
      rw [at?_cons, find?, if_neg hn, ← at?_cons] at hat
      rw [hwrite, mapFiles, hentries, ih h.2.2.2 above name more hat]

/-- A write to a file of the tree is one more replacement. -/
theorem write_overwrite {root : Listing} (h : root.Proper) {names : List Bytes} {old : Content}
    (hat : root.at? names = some (.file old)) (writes : List (List Bytes × Content))
    (content : Content) :
    (root.overwrite writes).write names content = root.overwrite ((names, content) :: writes) := by
  have hproper : (root.overwrite writes).Proper := h.mapFiles _ []
  rw [write_eq_mapFiles hproper (at?_overwrite hat writes) content [], overwrite,
    mapFiles_mapFiles, overwrite]
  congr 1
  funext ns c
  rw [List.nil_append, replaceAt, List.lookup_cons]
  by_cases hns : ns = names
  · simp [hns]
  · rw [if_neg hns, beq_eq_false_iff_ne.2 hns]

/-- A file that is not written reads as before. -/
theorem read_overwrite {root : Listing} {writes : List (List Bytes × Content)} {path : Bytes}
    (h : ∀ names, root.follow path = .ok names → writes.lookup names = none) :
    (root.overwrite writes).read path = root.read path := by
  unfold read
  have hfollow : (root.overwrite writes).follow path = root.follow path :=
    follow_mapFiles _ root path
  rw [hfollow]
  cases hpath : root.follow path with
  | error fault => rfl
  | ok names =>
    simp only [overwrite, at?_mapFiles, List.nil_append]
    cases root.at? names with
    | none => rfl
    | some node =>
      cases node with
      | dir entries => rfl
      | file content => simp only [Option.map_some, Node.mapFiles, h names hpath, Option.getD_none]

/-- A file that is written reads as it was written. -/
theorem read_overwrite_of_lookup {root : Listing} {writes : List (List Bytes × Content)}
    {path : Bytes} {text : Text} {names : List Bytes} {old : Content}
    (hpath : root.follow path = .ok names)
    (hat : root.at? names = some (.file old)) (h : writes.lookup names = some (.text text)) :
    (root.overwrite writes).read path = .ok text := by
  have hfollow : (root.overwrite writes).follow path = .ok names :=
    (follow_mapFiles _ root path).trans hpath
  rw [read, hfollow]
  simp only [at?_overwrite hat, h, Option.getD_some]

/-- Elsewhere the tree holds the files it held. -/
theorem at?_overwrite_of_lookup {root : Listing} {writes : List (List Bytes × Content)}
    {names : List Bytes} (h : writes.lookup names = none) (content : Content) :
    (root.overwrite writes).at? names = some (.file content) ↔
      root.at? names = some (.file content) := by
  rw [overwrite, at?_mapFiles, List.nil_append]
  cases root.at? names with
  | none => simp
  | some node =>
    cases node with
    | dir entries => simp [Node.mapFiles]
    | file old => simp [Node.mapFiles, h]

/-! ## Settings -/

/-- A path that ends with a name, spelled from any directory, ends with that name as a segment. -/
theorem exists_segments_join {name : Bytes} (h : Path.isName name = true) (dir : Bytes) :
    ∃ front, Path.segments (Path.join dir name) = front ++ [name] := by
  have hslash := Path.slash_not_mem h
  have hname : Text.cutAtEach Path.slash name = [name] := Text.cutAtEach_of_not_mem hslash
  have hrelative : Path.isAbsolute name = false := by
    rw [← Bool.not_eq_true, Path.isAbsolute, beq_iff_eq]
    exact fun hhead => hslash (List.mem_of_head? hhead)
  rw [Path.join, if_neg (by simp [hrelative])]
  split
  · next hend =>
    rcases List.eq_nil_or_concat dir with rfl | ⟨front, c, rfl⟩
    · exact ⟨[], hname⟩
    · -- the slash at the end of the directory stands before the name
      rw [List.concat_eq_append] at hend ⊢
      have hc : c = Path.slash := by simpa using hend
      refine ⟨Text.cutAtEach Path.slash front, ?_⟩
      rw [hc, List.append_assoc, List.singleton_append, Path.segments,
        Text.cutAtEach_append_mark, hname]
  · exact ⟨Text.cutAtEach Path.slash dir, by rw [Path.segments, Text.cutAtEach_append_mark, hname]⟩

theorem isName_of_mem_settingsNames {name : Bytes} (h : name ∈ settingsNames) :
    Path.isName name = true := by
  have hall : ∀ n ∈ settingsNames, Path.isName n = true := by decide
  exact hall name h

/-- A path to a settings file leads to a file of that name. -/
theorem getLast?_of_settingsFile? {root : Listing} {start found : Bytes} {names : List Bytes}
    (hfound : root.settingsFile? start = some found) (h : root.follow found = .ok names) :
    ∃ name ∈ settingsNames, names.getLast? = some name := by
  obtain ⟨dir, -, hdir⟩ := List.exists_of_findSome?_eq_some hfound
  obtain ⟨name, hname, rfl⟩ := List.mem_map.1 (List.mem_of_find?_eq_some hdir)
  have hproper := isName_of_mem_settingsNames hname
  obtain ⟨front, hsegments⟩ := exists_segments_join hproper dir
  rw [follow, hsegments] at h
  exact ⟨name, hname, getLast?_of_followFrom hproper h⟩

/-- The settings of a path stay when no settings file is written. -/
theorem settingsFor_overwrite {root : Listing} {writes : List (List Bytes × Content)}
    (h : ∀ write ∈ writes, ∀ name ∈ settingsNames, write.1.getLast? ≠ some name) (path : Bytes) :
    (root.overwrite writes).settingsFor path = root.settingsFor path := by
  have hfile : ∀ start, (root.overwrite writes).settingsFile? start = root.settingsFile? start := by
    intro start
    have hholds : (root.overwrite writes).holds = root.holds := funext (holds_mapFiles _ root)
    rw [settingsFile?, settingsFile?, hholds]
  have hread : ∀ start found, root.settingsFile? start = some found →
      (root.overwrite writes).read found = root.read found := by
    intro start found hfound
    apply read_overwrite
    intro names hnames
    -- none of the writes goes to a file of that name
    rw [List.lookup_eq_none_iff]
    intro write hwrite
    rw [bne_iff_ne]
    rintro rfl
    obtain ⟨name, hname, hlast⟩ := getLast?_of_settingsFile? hfound hnames
    exact h write hwrite name hname hlast
  have hisFile : (root.overwrite writes).isFile path = root.isFile path :=
    isFile_mapFiles _ root path
  unfold settingsFor
  simp only [hisFile, hfile]
  split
  · next found hfound =>
    rw [readSettings, readSettings, hread _ found hfound]
  · rfl

/-! ## The files that a path stands for -/

theorem mem_inOrder {found : List (Bytes × List Bytes)} {path : Bytes} :
    path ∈ inOrder found ↔ ∃ entry ∈ found, path ∈ entry.2 := by
  rw [inOrder, List.mem_flatMap]
  constructor
  · rintro ⟨entry, hentry, hpath⟩
    exact ⟨entry, (sortBy_perm _ found).mem_iff.1 hentry, hpath⟩
  · rintro ⟨entry, hentry, hpath⟩
    exact ⟨entry, (sortBy_perm _ found).mem_iff.2 hentry, hpath⟩

/-- A file among the later entries of a directory is not hidden by the first one. -/
theorem at?_of_rest {l rest : Listing} {n : Bytes} (hn : n ∉ rest.entryNames)
    (hfind : ∀ name, name ≠ n → l.find? name = rest.find? name) {names : List Bytes}
    {content : Content} (hat : rest.at? names = some (.file content)) :
    l.at? names = some (.file content) := by
  cases names with
  | nil => simp [at?] at hat
  | cons name names =>
    rw [at?_cons] at hat
    obtain ⟨node, hnode, hbelow⟩ := Option.bind_eq_some_iff.1 hat
    have hne : name ≠ n := by
      rintro rfl
      exact hn (mem_entryNames hnode)
    rw [at?_cons, hfind name hne, hnode, Option.bind_some, hbelow]

/-- A source file found in a proper listing is a file of the listing. -/
theorem exists_of_mem_sourcesByName {settings : Settings} {l : Listing} (h : l.Proper)
    {above : List Bytes} (habove : ∀ n ∈ above, Path.isName n = true) {entry : Bytes × List Bytes}
    (hentry : entry ∈ l.sourcesByName settings (Path.ofNames above)) {path : Bytes}
    (hpath : path ∈ entry.2) :
    ∃ names content, path = Path.ofNames (above ++ names) ∧
      l.at? names = some (.file content) := by
  induction l generalizing above entry with
  | nil => simp [sourcesByName] at hentry
  | file n content rest ih =>
    rw [sourcesByName, List.mem_cons] at hentry
    rcases hentry with rfl | hentry
    · simp only [List.mem_ite_nil_right, List.mem_singleton] at hpath
      refine ⟨[n], content, ?_, ?_⟩
      · rw [hpath.2, Path.join_ofNames habove h.1]
      · rw [at?_cons, find?, if_pos rfl]
        rfl
    · obtain ⟨names, content, hspelled, hat⟩ := ih h.2.2 habove hentry hpath
      refine ⟨names, content, hspelled, at?_of_rest h.2.1 ?_ hat⟩
      intro name hne
      rw [find?, if_neg (Ne.symm hne)]
  | dir n entries rest inside ih =>
    rw [sourcesByName, List.mem_cons] at hentry
    rcases hentry with rfl | hentry
    · have hdir : ∀ m ∈ above ++ [n], Path.isName m = true := by
        intro m hm
        rcases List.mem_append.1 hm with hm | hm
        · exact habove m hm
        · rw [List.mem_singleton.1 hm]
          exact h.1
      simp only [List.mem_ite_nil_left] at hpath
      rw [Path.join_ofNames habove h.1] at hpath
      obtain ⟨entry, hentry, hpath⟩ := mem_inOrder.1 hpath.2
      obtain ⟨names, content, hspelled, hat⟩ := inside h.2.2.1 hdir hentry hpath
      refine ⟨n :: names, content, ?_, ?_⟩
      · rw [hspelled, List.append_assoc, List.singleton_append]
      · rw [at?_cons, find?, if_pos rfl, Option.bind_some, Node.at?_dir, hat]
    · obtain ⟨names, content, hspelled, hat⟩ := ih h.2.2.2 habove hentry hpath
      refine ⟨names, content, hspelled, at?_of_rest h.2.1 ?_ hat⟩
      intro name hne
      rw [find?, if_neg (Ne.symm hne)]

/-- A path that can be read stands for itself. -/
theorem collect_of_read {root : Listing} {path : Bytes} {text : Text}
    (h : root.read path = .ok text) (settings : Settings) : root.collect settings path = [path] := by
  unfold read at h
  rw [collect, node?]
  cases hfollow : root.follow path with
  | error fault => simp [hfollow] at h
  | ok names =>
    simp only [hfollow] at h ⊢
    cases hat : root.at? names with
    | none => rfl
    | some node =>
      cases node with
      | file content => rfl
      | dir entries => simp [hat] at h

/-- The files that a path to an entry of a proper tree stands for are files of the tree. -/
theorem spells_of_mem_collect {root : Listing} (h : root.Proper) {settings : Settings}
    {ns : List Bytes} {node : Node} (hns : root.at? ns = some node) {path : Bytes}
    (hpath : path ∈ root.collect settings (Path.ofNames ns)) : root.Spells path := by
  have hproper := h.of_at? hns
  rw [collect, node?_ofNames hns hproper.1] at hpath
  cases node with
  | file content =>
    rw [List.mem_singleton] at hpath
    exact ⟨ns, content, hpath, hns⟩
  | dir entries =>
    obtain ⟨entry, hentry, hpath⟩ := mem_inOrder.1 hpath
    obtain ⟨names, content, hspelled, hat⟩ :=
      exists_of_mem_sourcesByName (hproper.2 entries rfl) hproper.1 hentry hpath
    refine ⟨ns ++ names, content, hspelled, ?_⟩
    rw [at?_append, hns, Option.bind_some, Node.at?_dir, hat]

end Listing

end YapAssist
