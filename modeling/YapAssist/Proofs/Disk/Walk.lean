import YapAssist.Proofs.Disk.Overwrite
import YapAssist.Proofs.Sorting
import YapAssist.Proofs.Text.Bytes

/-!
# The walk through a directory

The source files below a directory are known by their ways: the names that lead to them, the last of
which is their own. A walk that collects ways (`Listing.ways`) knows nothing of the path it starts
from, and the paths it stands for are spelled from that path by joining the names of each way.

* `Listing.sourcesIn_eq`, the paths that are found are those of the ways;
* `Listing.mem_ways_iff`, the ways lead to exactly the source files that are not hidden
  (`Listing.IsSourceWay`);
* `Listing.pairwise_ways`, the ways come in the order of their names, compared by bytes;
* `Listing.sources_ways`, all of this for the directory that a path leads to. No name on a way
  begins with a dot, unless it is no text (`Listing.IsStray`).
-/

namespace YapAssist

/-! ## Paths below a directory -/

namespace Path

/-- The path of the entry that names lead to from the directory at `dir`. -/
def below (dir : Bytes) (names : List Bytes) : Bytes := names.foldl join dir

/-- A path as it stands before a name that goes on it. -/
def beforeName (dir : Bytes) : Bytes :=
  if dir.isEmpty || dir.getLast? == some slash then dir else dir ++ [slash]

theorem join_eq {name : Bytes} (h : isName name = true) (dir : Bytes) :
    join dir name = beforeName dir ++ name := by
  have hrelative : isAbsolute name = false := by
    rw [← Bool.not_eq_true, isAbsolute, beq_iff_eq]
    exact fun hhead => slash_not_mem h (List.mem_of_head? hhead)
  unfold join beforeName
  rw [if_neg (by simp [hrelative])]
  split
  · rfl
  · simp

theorem beforeName_append {name : Bytes} (h : isName name = true) (dir : Bytes) :
    beforeName (dir ++ name) = dir ++ (name ++ [slash]) := by
  have hname := isName_iff.1 h
  have hlast : (dir ++ name).getLast? ≠ some slash := by
    rw [Text.getLast?_append_right hname.1]
    exact fun hslash => hname.2.2.2 (List.mem_of_getLast? hslash)
  unfold beforeName
  rw [if_neg, List.append_assoc]
  rw [Bool.or_eq_true, beq_iff_eq, List.isEmpty_iff, List.append_eq_nil_iff]
  exact not_or.2 ⟨fun hnil => hname.1 hnil.2, hlast⟩

/-- A path below a directory spells its names behind that directory. -/
theorem below_eq {names : List Bytes} (hne : names ≠ []) (h : ∀ n ∈ names, isName n = true)
    (dir : Bytes) : below dir names = beforeName dir ++ Text.joinWith [slash] names := by
  induction names generalizing dir with
  | nil => exact absurd rfl hne
  | cons n names ih =>
    have hn := h n List.mem_cons_self
    show below (join dir n) names = _
    cases names with
    | nil =>
      show join dir n = _
      rw [join_eq hn]
      simp [Text.joinWith]
    | cons m names =>
      rw [ih (by simp) (fun k hk => h k (List.mem_cons_of_mem _ hk)), join_eq hn,
        beforeName_append hn, Text.joinWith_cons_cons]
      simp

/-- Paths below a directory differ as their names do. -/
theorem below_inj {dir : Bytes} {s t : List Bytes} (hs : s ≠ []) (ht : t ≠ [])
    (hsn : ∀ n ∈ s, isName n = true) (htn : ∀ n ∈ t, isName n = true)
    (h : below dir s = below dir t) : s = t := by
  rw [below_eq hs hsn, below_eq ht htn, List.append_cancel_left_eq] at h
  rw [← cutAtEach_joinWith hs hsn, h, cutAtEach_joinWith ht htn]

theorem fileName?_join {name : Bytes} (h : isName name = true) (dir : Bytes) :
    fileName? (join dir name) = some name := by
  have hname := isName_iff.1 h
  obtain ⟨front, hfront⟩ := Listing.exists_segments_join h dir
  unfold fileName? names
  rw [hfront, List.filter_append, List.filter_cons_of_pos (by simp [hname.1, hname.2.1])]
  simp [hname.2.2.1]

/-- The extension of a path is what follows the last dot of its last name, unless that dot is the
first character of the name. -/
theorem extension?_join {name : Bytes} (h : isName name = true) (dir e : Bytes) :
    extension? (join dir name) = some e ↔
      ∃ stem : Bytes, stem ≠ [] ∧ name = stem ++ dot :: e ∧ dot ∉ e := by
  unfold extension?
  rw [fileName?_join h, Option.bind_some, Option.bind_eq_some_iff]
  constructor
  · intro hcut
    obtain ⟨⟨stem, found⟩, hcut, hfound⟩ := hcut
    rw [Text.cutAtLast?_eq_some_iff] at hcut
    by_cases hstem : stem = []
    · simp [hstem] at hfound
    · obtain rfl : found = e := by simpa [hstem] using hfound
      exact ⟨stem, hstem, hcut⟩
  · intro hname
    obtain ⟨stem, hstem, hcut⟩ := hname
    exact ⟨(stem, e), Text.cutAtLast?_eq_some_iff.2 hcut, by simp [hstem]⟩

theorem extension?_below {names : List Bytes} (hne : names ≠ []) (h : ∀ n ∈ names, isName n = true)
    (dir e : Bytes) : extension? (below dir names) = some e ↔
      ∃ stem : Bytes, stem ≠ [] ∧ names.getLast? = some (stem ++ dot :: e) ∧ dot ∉ e := by
  obtain ⟨front, last, rfl⟩ : ∃ front last, names = front ++ [last] :=
    ⟨_, _, (List.dropLast_append_getLast hne).symm⟩
  have hlast : below dir (front ++ [last]) = join (below dir front) last := List.foldl_concat ..
  rw [hlast, extension?_join (h last (by simp)), List.getLast?_concat]
  simp only [Option.some.injEq]

end Path

theorem Settings.isSource_iff {settings : Settings} {path : Bytes} :
    settings.isSource path = true ↔
      ∃ e ∈ settings.extensions, Path.extension? path = some (Text.bytes e) := by
  unfold isSource
  simp only [Option.any_eq_true, Option.bind_eq_some_iff, Text.ofBytes?_eq_some_iff,
    List.contains_iff_mem]
  constructor
  · rintro ⟨e, ⟨_, hextension, rfl⟩, he⟩
    exact ⟨e, he, hextension⟩
  · rintro ⟨e, he, hextension⟩
    exact ⟨e, ⟨_, hextension, rfl⟩, he⟩

/-- Whether a file is a source file is settled by its own name. -/
theorem Settings.isSource_join {name : Bytes} (h : Path.isName name = true) (settings : Settings)
    (dir : Bytes) : settings.isSource (Path.join dir name) = true ↔
      ∃ (stem : Bytes) (e : Text), stem ≠ [] ∧ name = stem ++ Path.dot :: Text.bytes e ∧
        Path.dot ∉ Text.bytes e ∧ e ∈ settings.extensions := by
  rw [isSource_iff]
  simp only [Path.extension?_join h]
  constructor
  · intro hsource
    obtain ⟨e, he, stem, hstem, hname, hdot⟩ := hsource
    exact ⟨stem, e, hstem, hname, hdot, he⟩
  · intro hspelled
    obtain ⟨stem, e, hstem, hname, hdot, he⟩ := hspelled
    exact ⟨e, he, stem, hstem, hname, hdot⟩

namespace Listing

/-! ## The walk by names -/

/-- Entries in the order of their names, each replaced by the ways found in it. -/
def waysInOrder (found : List (Bytes × List (List Bytes))) : List (List Bytes) :=
  (sortBy (fun a b => a.1 ≤ b.1) found).flatMap Prod.snd

/-- For each entry of a listing its name and the ways to the source files in it. -/
def waysByName (settings : Settings) : Listing → List (Bytes × List (List Bytes))
  | nil => []
  | file name _ rest =>
    (name, if !isHidden name && settings.isSource name then [[name]] else []) ::
      waysByName settings rest
  | dir name entries rest =>
    let inside := waysInOrder (waysByName settings entries)
    (name, if isHidden name then [] else inside.map (name :: ·)) :: waysByName settings rest

/-- The ways to the source files below a directory. -/
def ways (settings : Settings) (l : Listing) : List (List Bytes) :=
  waysInOrder (waysByName settings l)

theorem inOrder_map (found : List (Bytes × List (List Bytes))) (f : List Bytes → Bytes) :
    inOrder (found.map fun entry => (entry.1, entry.2.map f)) = (waysInOrder found).map f := by
  unfold inOrder waysInOrder
  rw [sortBy_map (fun _ _ => rfl), List.flatMap_map, List.map_flatMap]

theorem sourcesByName_eq (settings : Settings) {l : Listing} (h : l.Proper) (path : Bytes) :
    l.sourcesByName settings path =
      (l.waysByName settings).map fun entry => (entry.1, entry.2.map (Path.below path)) := by
  induction l generalizing path with
  | nil => rfl
  | file name content rest ih =>
    have hsource : settings.isSource (Path.join path name) = settings.isSource name := by
      have hname : Path.join [] name = name := Path.join_eq h.1 []
      rw [Bool.eq_iff_iff, settings.isSource_join h.1, ← settings.isSource_join h.1 [], hname]
    rw [sourcesByName, waysByName, List.map_cons, ih h.2.2, hsource]
    cases !isHidden name && settings.isSource name <;> rfl
  | dir name entries rest inside ih =>
    have hinside : inOrder (entries.sourcesByName settings (Path.join path name)) =
        ((waysInOrder (entries.waysByName settings)).map (name :: ·)).map (Path.below path) := by
      rw [inside h.2.2.1, inOrder_map, List.map_map]
      rfl
    rw [sourcesByName, waysByName, List.map_cons, ih h.2.2.2, hinside]
    cases isHidden name <;> rfl

/-- The paths that are found are those of the ways. -/
theorem sourcesIn_eq (settings : Settings) {l : Listing} (h : l.Proper) (path : Bytes) :
    l.sourcesIn settings path = (l.ways settings).map (Path.below path) := by
  unfold sourcesIn ways
  rw [sourcesByName_eq settings h, inOrder_map]

/-! ## The ways that are found -/

/-- What is hidden has a text for a name, and the text begins with a dot. -/
theorem isHidden_iff {name : Bytes} :
    isHidden name = true ↔ ∃ t : Text, name = Text.bytes ('.' :: t) := by
  unfold isHidden
  simp only [Option.any_eq_true, Text.ofBytes?_eq_some_iff, beq_iff_eq, List.head?_eq_some_iff]
  constructor
  · rintro ⟨_, rfl, t, rfl⟩
    exact ⟨t, rfl⟩
  · rintro ⟨t, rfl⟩
    exact ⟨'.' :: t, rfl, t, rfl⟩

theorem isHidden_eq_false_iff {name : Bytes} :
    isHidden name = false ↔ ∀ t : Text, name ≠ Text.bytes ('.' :: t) := by
  rw [← Bool.not_eq_true, isHidden_iff, not_exists]

/-- Names lead from a directory to one of its source files that are not hidden: to a regular file,
through entries none of which has a text that begins with a dot for a name, and the extension of the
file is one of the settings. -/
structure IsSourceWay (settings : Settings) (l : Listing) (names : List Bytes) : Prop where
  file : ∃ content, l.at? names = some (.file content)
  visible : ∀ name ∈ names, ∀ t : Text, name ≠ Text.bytes ('.' :: t)
  extension : ∃ (stem : Bytes) (e : Text), stem ≠ [] ∧
    names.getLast? = some (stem ++ Path.dot :: Text.bytes e) ∧ Path.dot ∉ Text.bytes e ∧
    e ∈ settings.extensions

theorem mem_waysInOrder {found : List (Bytes × List (List Bytes))} {names : List Bytes} :
    names ∈ waysInOrder found ↔ ∃ entry ∈ found, names ∈ entry.2 := by
  unfold waysInOrder
  simp only [List.mem_flatMap, (sortBy_perm _ found).mem_iff]

/-- A way into a listing leads into its first entry or into the rest. -/
theorem at?_eq_file_iff {l rest : Listing} {n : Bytes} {first : Node} (hn : n ∉ rest.entryNames)
    (hfind : ∀ name, l.find? name = if n = name then some first else rest.find? name)
    (names : List Bytes) (content : Content) :
    l.at? names = some (.file content) ↔
      (∃ more, names = n :: more ∧ first.at? more = some (.file content)) ∨
        rest.at? names = some (.file content) := by
  cases names with
  | nil => simp [at?]
  | cons name more =>
    rw [at?_cons, at?_cons, hfind]
    by_cases hname : n = name
    · rw [if_pos hname, find?_eq_none (hname ▸ hn)]
      simp [hname]
    · rw [if_neg hname]
      simp [Ne.symm hname]

theorem isSourceWay_iff {settings : Settings} {l rest : Listing} {n : Bytes} {first : Node}
    (hn : n ∉ rest.entryNames)
    (hfind : ∀ name, l.find? name = if n = name then some first else rest.find? name)
    (names : List Bytes) :
    IsSourceWay settings l names ↔
      (∃ more, names = n :: more ∧ (∃ content, first.at? more = some (.file content)) ∧
        (∀ name ∈ names, ∀ t : Text, name ≠ Text.bytes ('.' :: t)) ∧
        ∃ (stem : Bytes) (e : Text), stem ≠ [] ∧
          names.getLast? = some (stem ++ Path.dot :: Text.bytes e) ∧ Path.dot ∉ Text.bytes e ∧
          e ∈ settings.extensions) ∨
        IsSourceWay settings rest names := by
  constructor
  · intro h
    obtain ⟨content, hat⟩ := h.file
    obtain ⟨more, hnames, hmore⟩ | hrest := (at?_eq_file_iff hn hfind names content).1 hat
    · exact .inl ⟨more, hnames, ⟨content, hmore⟩, h.visible, h.extension⟩
    · exact .inr ⟨⟨content, hrest⟩, h.visible, h.extension⟩
  · intro h
    obtain ⟨more, hnames, ⟨content, hmore⟩, hvisible, hextension⟩ | h := h
    · refine ⟨⟨content, ?_⟩, hvisible, hextension⟩
      exact (at?_eq_file_iff hn hfind names content).2 (.inl ⟨more, hnames, hmore⟩)
    · obtain ⟨content, hat⟩ := h.file
      refine ⟨⟨content, ?_⟩, h.visible, h.extension⟩
      exact (at?_eq_file_iff hn hfind names content).2 (.inr hat)

theorem ne_nil_of_at? {l : Listing} {names : List Bytes} {content : Content}
    (h : l.at? names = some (.file content)) : names ≠ [] := by
  rintro rfl
  simp [at?] at h

/-- The ways lead to exactly the source files that are not hidden. -/
theorem mem_ways_iff {settings : Settings} {l : Listing} (h : l.Proper) (names : List Bytes) :
    names ∈ l.ways settings ↔ IsSourceWay settings l names := by
  unfold ways
  induction l generalizing names with
  | nil =>
    rw [mem_waysInOrder]
    constructor
    · simp [waysByName]
    · intro hway
      obtain ⟨content, hat⟩ := hway.file
      cases names with
      | nil => simp [at?] at hat
      | cons name more => simp [at?_cons, find?] at hat
  | file name content rest ih =>
    have hsource := settings.isSource_join h.1 []
    rw [show Path.join [] name = name from Path.join_eq h.1 []] at hsource
    rw [isSourceWay_iff h.2.1 (fun _ => rfl), ← ih h.2.2, mem_waysInOrder, mem_waysInOrder,
      waysByName, List.exists_mem_cons_iff]
    apply or_congr_left
    rw [List.mem_ite_nil_right, Bool.and_eq_true, Bool.not_eq_true', isHidden_eq_false_iff,
      hsource, List.mem_singleton]
    constructor
    · intro hfile
      obtain ⟨⟨hvisible, stem, e, hstem, hname, hdot, he⟩, rfl⟩ := hfile
      refine ⟨[], rfl, ⟨content, rfl⟩, by simpa using hvisible, stem, e, hstem, ?_, hdot, he⟩
      rw [List.getLast?_singleton, hname]
    · intro hfile
      obtain ⟨more, rfl, ⟨found, hmore⟩, hvisible, stem, e, hstem, hlast, hdot, he⟩ := hfile
      cases more with
      | nil =>
        refine ⟨⟨hvisible name List.mem_cons_self, stem, e, hstem, ?_, hdot, he⟩, rfl⟩
        rwa [List.getLast?_singleton, Option.some.injEq] at hlast
      | cons next more => simp [Node.at?] at hmore
  | dir name entries rest inside ih =>
    rw [isSourceWay_iff h.2.1 (fun _ => rfl), ← ih h.2.2.2, mem_waysInOrder, mem_waysInOrder,
      waysByName, List.exists_mem_cons_iff]
    apply or_congr_left
    rw [List.mem_ite_nil_left, Bool.not_eq_true, isHidden_eq_false_iff, List.mem_map]
    simp only [inside h.2.2.1]
    constructor
    · intro hdir
      obtain ⟨hvisible, more, hway, rfl⟩ := hdir
      obtain ⟨content, hat⟩ := hway.file
      have hmore := ne_nil_of_at? hat
      refine ⟨more, rfl, ⟨content, by rw [Node.at?_dir, hat]⟩,
        List.forall_mem_cons.2 ⟨hvisible, hway.visible⟩, ?_⟩
      rw [← List.singleton_append, Text.getLast?_append_right hmore]
      exact hway.extension
    · intro hdir
      obtain ⟨more, rfl, ⟨content, hat⟩, hvisible, hextension⟩ := hdir
      rw [Node.at?_dir] at hat
      have hmore := ne_nil_of_at? hat
      rw [← List.singleton_append, Text.getLast?_append_right hmore] at hextension
      obtain ⟨hname, hbehind⟩ := List.forall_mem_cons.1 hvisible
      exact ⟨hname, more, ⟨⟨content, hat⟩, hbehind, hextension⟩, rfl⟩

theorem Proper.names_of_isSourceWay {settings : Settings} {l : Listing} (h : l.Proper)
    {names : List Bytes} (hway : IsSourceWay settings l names) :
    names ≠ [] ∧ ∀ n ∈ names, Path.isName n = true := by
  obtain ⟨content, hat⟩ := hway.file
  exact ⟨ne_nil_of_at? hat, (h.of_at? hat).1⟩

/-- The extension is that of the path to which the names lead from any directory. -/
theorem isSourceWay_iff_extension {settings : Settings} {l : Listing} (h : l.Proper) (path : Bytes)
    (names : List Bytes) :
    IsSourceWay settings l names ↔ (∃ content, l.at? names = some (.file content)) ∧
      (∀ name ∈ names, ∀ t : Text, name ≠ Text.bytes ('.' :: t)) ∧
      ∃ e ∈ settings.extensions,
        Path.extension? (Path.below path names) = some (Text.bytes e) := by
  constructor
  · intro hway
    obtain ⟨hne, hnames⟩ := h.names_of_isSourceWay hway
    obtain ⟨stem, e, hstem, hlast, hdot, he⟩ := hway.extension
    exact ⟨hway.file, hway.visible, e, he,
      (Path.extension?_below hne hnames path _).2 ⟨stem, hstem, hlast, hdot⟩⟩
  · intro hall
    obtain ⟨⟨content, hat⟩, hvisible, e, he, hextension⟩ := hall
    rw [Path.extension?_below (ne_nil_of_at? hat) (h.of_at? hat).1] at hextension
    obtain ⟨stem, hstem, hlast, hdot⟩ := hextension
    exact ⟨⟨content, hat⟩, hvisible, stem, e, hstem, hlast, hdot, he⟩

/-! ## The order of the ways -/

theorem nodup_entryNames {l : Listing} (h : l.Proper) : l.entryNames.Nodup := by
  induction l with
  | nil => exact List.nodup_nil
  | file name content rest ih => exact List.nodup_cons.2 ⟨h.2.1, ih h.2.2⟩
  | dir name entries rest _ ih => exact List.nodup_cons.2 ⟨h.2.1, ih h.2.2.2⟩

theorem map_fst_waysByName (settings : Settings) (l : Listing) :
    (l.waysByName settings).map Prod.fst = l.entryNames := by
  induction l with
  | nil => rfl
  | file name content rest ih => rw [waysByName, List.map_cons, ih, entryNames]
  | dir name entries rest _ ih => rw [waysByName, List.map_cons, ih, entryNames]

/-- Ways that begin with the names of their entries, and are in order for each entry, are in order
altogether. -/
theorem pairwise_waysInOrder {found : List (Bytes × List (List Bytes))}
    (hnodup : (found.map Prod.fst).Nodup)
    (hfound : ∀ entry ∈ found, (∀ names ∈ entry.2, names.head? = some entry.1) ∧
      entry.2.Pairwise (· < ·)) : (waysInOrder found).Pairwise (· < ·) := by
  have hperm := sortBy_perm (fun a b : Bytes × List (List Bytes) => a.1 ≤ b.1) found
  have hsorted : (sortBy (fun a b => a.1 ≤ b.1) found).Pairwise fun a b =>
      decide (a.1 ≤ b.1) = true := by
    apply pairwise_sortBy
    · intro a b
      simpa only [decide_eq_true_eq] using List.le_total a.1 b.1
    · intro a b c
      simpa only [decide_eq_true_eq] using List.le_trans
  have hdistinct := List.pairwise_map.1 ((hperm.map Prod.fst).nodup_iff.2 hnodup)
  unfold waysInOrder
  rw [List.pairwise_flatMap]
  refine ⟨fun entry hentry => (hfound entry (hperm.mem_iff.1 hentry)).2, ?_⟩
  apply (hsorted.and hdistinct).imp_of_mem
  intro a b ha hb hab s hs t ht
  obtain ⟨s', rfl⟩ := List.head?_eq_some_iff.1 ((hfound a (hperm.mem_iff.1 ha)).1 s hs)
  obtain ⟨t', rfl⟩ := List.head?_eq_some_iff.1 ((hfound b (hperm.mem_iff.1 hb)).1 t ht)
  rw [List.cons_lt_cons_iff]
  exact .inl (Std.lt_of_le_of_ne (of_decide_eq_true hab.1) hab.2)

theorem waysByName_entry (settings : Settings) {l : Listing} (h : l.Proper) :
    ∀ entry ∈ l.waysByName settings, (∀ names ∈ entry.2, names.head? = some entry.1) ∧
      entry.2.Pairwise (· < ·) := by
  induction l with
  | nil => simp [waysByName]
  | file name content rest ih =>
    rw [waysByName, List.forall_mem_cons]
    refine ⟨?_, ih h.2.2⟩
    cases !isHidden name && settings.isSource name <;> simp
  | dir name entries rest inside ih =>
    rw [waysByName, List.forall_mem_cons]
    refine ⟨?_, ih h.2.2.2⟩
    have hnodup := nodup_entryNames h.2.2.1
    rw [← map_fst_waysByName settings] at hnodup
    have hinside := pairwise_waysInOrder hnodup (inside h.2.2.1)
    cases isHidden name with
    | true => simp
    | false =>
      constructor
      · intro names hnames
        obtain ⟨more, -, rfl⟩ := List.mem_map.1 hnames
        rfl
      · show (List.map _ _).Pairwise (· < ·)
        rw [List.pairwise_map]
        apply hinside.imp
        intro s t hst
        rw [List.cons_lt_cons_iff]
        exact .inr ⟨rfl, hst⟩

theorem pairwise_ways (settings : Settings) {l : Listing} (h : l.Proper) :
    (l.ways settings).Pairwise (· < ·) := by
  have hnodup := nodup_entryNames h
  rw [← map_fst_waysByName settings] at hnodup
  exact pairwise_waysInOrder hnodup (waysByName_entry settings h)

/-! ## The walk through the directory at a path -/

theorem Proper.of_node? {root : Listing} (h : root.Proper) {path : Bytes} {entries : Listing}
    (hpath : root.node? path = some (.dir entries)) : entries.Proper := by
  unfold node? at hpath
  split at hpath
  · exact (h.of_at? hpath).2 entries rfl
  · simp at hpath

/-- A file below the directory at `path` that a walk is to find: no name on the way to it begins
with a dot, and its extension is one of the settings. -/
def IsVisibleSource (settings : Settings) (path : Bytes) (entries : Listing) (file : Bytes) :
    Prop :=
  ∃ names content, file = Path.below path names ∧ entries.at? names = some (.file content) ∧
    (∀ name ∈ names, name.head? ≠ some Path.dot) ∧
    ∃ e ∈ settings.extensions, Path.extension? file = some (Text.bytes e)

/-- A name that begins with a dot and is no text. -/
def IsStray (name : Bytes) : Prop := name.head? = some Path.dot ∧ Text.ofBytes? name = none

instance : DecidablePred IsStray := fun name =>
  inferInstanceAs (Decidable (name.head? = some Path.dot ∧ Text.ofBytes? name = none))

/-- Every name that begins with a dot is hidden, unless it is no text. -/
theorem head?_eq_dot_iff {name : Bytes} :
    name.head? = some Path.dot ↔ (∃ t : Text, name = Text.bytes ('.' :: t)) ∨ IsStray name := by
  constructor
  · intro hdot
    cases htext : Text.ofBytes? name with
    | none => exact .inr ⟨hdot, htext⟩
    | some t =>
      obtain rfl := Text.ofBytes?_eq_some_iff.1 htext
      obtain ⟨u, rfl⟩ := Text.exists_of_first_byte (c := '.') (by decide) hdot
      exact .inl ⟨u, rfl⟩
  · intro h
    obtain ⟨t, rfl⟩ | hstray := h
    · rfl
    · exact hstray.1

/-- Different ways to files have different paths. -/
theorem Proper.below_inj {l : Listing} (h : l.Proper) {path : Bytes} {s t : List Bytes}
    (hs : ∃ content, l.at? s = some (.file content))
    (ht : ∃ content, l.at? t = some (.file content))
    (hst : Path.below path s = Path.below path t) : s = t := by
  obtain ⟨_, hs⟩ := hs
  obtain ⟨_, ht⟩ := ht
  exact Path.below_inj (ne_nil_of_at? hs) (ne_nil_of_at? ht) (h.of_at? hs).1 (h.of_at? ht).1 hst

/-- The visible sources lie at the end of the ways that pass no stray name. -/
theorem Proper.isVisibleSource_iff {settings : Settings} {l : Listing} (h : l.Proper)
    (path file : Bytes) :
    IsVisibleSource settings path l file ↔ ∃ names, file = Path.below path names ∧
      IsSourceWay settings l names ∧ ∀ name ∈ names, ¬ IsStray name := by
  constructor
  · intro hfile
    obtain ⟨names, content, rfl, hat, hdot, hextension⟩ := hfile
    have hvisible : ∀ name ∈ names, ∀ t : Text, name ≠ Text.bytes ('.' :: t) :=
      fun name hname t ht => hdot name hname (head?_eq_dot_iff.2 (.inl ⟨t, ht⟩))
    have hway := (isSourceWay_iff_extension h path names).2 ⟨⟨content, hat⟩, hvisible, hextension⟩
    exact ⟨names, rfl, hway, fun name hname hstray => hdot name hname hstray.1⟩
  · intro hfile
    obtain ⟨names, rfl, hway, hclean⟩ := hfile
    obtain ⟨⟨content, hat⟩, hvisible, hextension⟩ := (isSourceWay_iff_extension h path names).1 hway
    refine ⟨names, content, rfl, hat, ?_, hextension⟩
    intro name hname hdot
    obtain ⟨t, ht⟩ | hstray := head?_eq_dot_iff.1 hdot
    · exact hvisible name hname t ht
    · exact hclean name hname hstray

/-- A directory `a` beside a file that is named like it but for an extension, and hidden entries. -/
def plainTree : Listing :=
  .file (Text.bytes "é.yap".toList) (.text []) <|
    .file (Text.bytes "a.yap".toList) (.bytes [255]) <|
    .dir (Text.bytes "a".toList)
      (.file (Text.bytes "z.yap".toList) (.text []) <|
        .file (Text.bytes ".h.yap".toList) (.text []) .nil) <|
    .dir (Text.bytes ".git".toList) (.file (Text.bytes "x.yap".toList) (.text []) .nil) <|
    .file (Text.bytes ".yap".toList) (.text []) .nil

/-- A directory whose name is a dot and a byte that is no text, with a source file in it. -/
def strayTree : Listing :=
  .dir [Path.dot, 0xFF] (.file (Text.bytes "a.yap".toList) (.text []) .nil) .nil

end Listing

end YapAssist
