import YapAssist.Disk.Tree
import YapAssist.Proofs.Text.Trim

/-!
# Trees and the paths through them

In a proper tree every directory holds each name once, and every name is one that a path can spell
(`Listing.Proper`). The path of names then leads to what stands there, and nothing else is meant by
it:

* `Path.names_ofNames`, `Path.join_ofNames`, paths spelled from names;
* `Listing.at?_append`, a way into a tree goes on below the directory it leads to;
* `Listing.follow_ofNames`, `Listing.exists_of_follow`, following a path and reading its names off;
* `Listing.Spells`, the one path of names that every file has.
-/

namespace YapAssist

namespace Path

/-! ## Paths of names -/

/-- Whether bytes can be the name of an entry: a path spells it as one segment, and that segment
leads to the entry. -/
def isName (t : Bytes) : Bool :=
  !t.isEmpty && t != [dot] && t != [dot, dot] && !t.contains slash

theorem isName_iff {t : Bytes} :
    isName t = true ↔ t ≠ [] ∧ t ≠ [dot] ∧ t ≠ [dot, dot] ∧ slash ∉ t := by
  simp [isName, and_assoc]

theorem slash_not_mem {t : Bytes} (h : isName t = true) : slash ∉ t := (isName_iff.1 h).2.2.2

/-- Names put together with slashes come apart again. -/
theorem cutAtEach_joinWith {ns : List Bytes} (hne : ns ≠ []) (h : ∀ n ∈ ns, isName n = true) :
    Text.cutAtEach slash (Text.joinWith [slash] ns) = ns := by
  induction ns with
  | nil => exact absurd rfl hne
  | cons n ns ih =>
    have hn : Text.cutAtEach slash n = [n] :=
      Text.cutAtEach_of_not_mem (slash_not_mem (h n List.mem_cons_self))
    cases ns with
    | nil => simpa [Text.joinWith] using hn
    | cons m ns =>
      rw [Text.joinWith_cons_cons, List.singleton_append, Text.cutAtEach_append_mark, hn,
        ih (by simp) fun k hk => h k (List.mem_cons_of_mem _ hk), List.singleton_append]

/-- The segments of a path spelled from names are these names, behind an empty one. -/
theorem segments_ofNames {ns : List Bytes} (hne : ns ≠ []) (h : ∀ n ∈ ns, isName n = true) :
    segments (ofNames ns) = [] :: ns := by
  rw [segments, ofNames, Text.cutAtEach, if_pos rfl, cutAtEach_joinWith hne h]

theorem names_ofNames {ns : List Bytes} (h : ∀ n ∈ ns, isName n = true) :
    names (ofNames ns) = ns := by
  by_cases hne : ns = []
  · rw [hne]
    rfl
  · have hall : ns.filter (fun s => !s.isEmpty && s != [dot]) = ns := by
      apply List.filter_eq_self.2
      intro n hn
      have hname := isName_iff.1 (h n hn)
      simp [hname.1, hname.2.1]
    rw [names, segments_ofNames hne h, List.filter_cons_of_neg (by simp), hall]

theorem fileName?_ofNames {ns : List Bytes} (h : ∀ n ∈ ns, isName n = true) :
    fileName? (ofNames ns) = ns.getLast? := by
  rw [fileName?, names_ofNames h]
  cases hlast : ns.getLast? with
  | none => rfl
  | some n =>
    have hname := isName_iff.1 (h n (List.mem_of_getLast? hlast))
    simp [Option.filter, hname.2.2.1]

theorem joinWith_concat {ns : List Bytes} (hne : ns ≠ []) (n : Bytes) :
    Text.joinWith [slash] (ns ++ [n]) = Text.joinWith [slash] ns ++ slash :: n := by
  induction ns with
  | nil => exact absurd rfl hne
  | cons m ns ih =>
    cases ns with
    | nil => simp [Text.joinWith]
    | cons k ns =>
      have hrest := ih (by simp)
      rw [List.cons_append] at hrest
      rw [List.cons_append, List.cons_append, Text.joinWith_cons_cons, hrest,
        Text.joinWith_cons_cons]
      simp

theorem getLast?_joinWith {ns : List Bytes} (h : ∀ n ∈ ns, isName n = true) :
    (Text.joinWith [slash] ns).getLast? ≠ some slash := by
  rcases List.eq_nil_or_concat ns with rfl | ⟨front, n, rfl⟩
  · simp [Text.joinWith]
  · rw [List.concat_eq_append] at h ⊢
    have hname := isName_iff.1 (h n (by simp))
    have hlast : n.getLast? ≠ some slash := fun he => hname.2.2.2 (List.mem_of_getLast? he)
    by_cases hfront : front = []
    · simpa [hfront, Text.joinWith] using hlast
    · rw [joinWith_concat hfront, Text.getLast?_append_cons _ hname.1]
      exact hlast

/-- A name goes on a path of names as one more of them. -/
theorem join_ofNames {ns : List Bytes} (h : ∀ n ∈ ns, isName n = true) {n : Bytes}
    (hn : isName n = true) : join (ofNames ns) n = ofNames (ns ++ [n]) := by
  have hname := isName_iff.1 hn
  have hrelative : isAbsolute n = false := by
    rw [← Bool.not_eq_true, isAbsolute, beq_iff_eq]
    exact fun hhead => hname.2.2.2 (List.mem_of_head? hhead)
  rw [join, if_neg (by simp [hrelative])]
  by_cases hne : ns = []
  · simp [hne, ofNames, Text.joinWith]
  · have hlast : (ofNames ns).getLast? ≠ some slash := by
      have hjoin : Text.joinWith [slash] ns ≠ [] := by
        intro hnil
        have hcut := cutAtEach_joinWith hne h
        rw [hnil] at hcut
        have hempty : isName [] = true := h [] (by rw [← hcut]; exact List.mem_singleton_self _)
        exact absurd hempty (by decide)
      have hcons : ofNames ns = [slash] ++ Text.joinWith [slash] ns := rfl
      rw [hcons, Text.getLast?_append_right hjoin]
      exact getLast?_joinWith h
    rw [if_neg (by simpa [ofNames] using hlast), ofNames, ofNames, joinWith_concat hne,
      List.cons_append]

end Path

/-! ## Ways into a tree -/

/-- The entry at the end of a list of names below an entry. -/
def Node.at? : Node → List Bytes → Option Node
  | node, [] => some node
  | .dir entries, name :: names => entries.at? (name :: names)
  | .file _, _ :: _ => none

theorem Node.at?_dir (entries : Listing) (names : List Bytes) :
    (Node.dir entries).at? names = entries.at? names := by
  cases names <;> rfl

namespace Listing

theorem at?_cons (l : Listing) (name : Bytes) (names : List Bytes) :
    l.at? (name :: names) = (l.find? name).bind fun node => node.at? names := by
  cases names with
  | nil =>
    rw [at?]
    cases l.find? name <;> rfl
  | cons next more =>
    rw [at?]
    · cases l.find? name with
      | none => rfl
      | some node => cases node <;> rfl
    · simp

/-- A way into a tree goes on below the entry that its first part leads to. -/
theorem at?_append (l : Listing) (s t : List Bytes) :
    l.at? (s ++ t) = (l.at? s).bind fun node => node.at? t := by
  induction s generalizing l with
  | nil => exact (Node.at?_dir l t).symm
  | cons name s ih =>
    rw [List.cons_append, at?_cons, at?_cons, Option.bind_assoc]
    cases l.find? name with
    | none => rfl
    | some node =>
      rw [Option.bind_some, Option.bind_some]
      cases node with
      | file content =>
        -- nothing lies below a file
        cases s <;> rfl
      | dir entries => rw [Node.at?_dir, Node.at?_dir, ih]

/-! ## Proper trees -/

/-- The names of the entries of a directory. -/
def entryNames : Listing → List Bytes
  | nil => []
  | file name _ rest => name :: entryNames rest
  | dir name _ rest => name :: entryNames rest

/-- The trees in which every directory holds each name once, and only names that a path can
spell. -/
def Proper : Listing → Prop
  | nil => True
  | file name _ rest => Path.isName name = true ∧ name ∉ rest.entryNames ∧ rest.Proper
  | dir name entries rest =>
    Path.isName name = true ∧ name ∉ rest.entryNames ∧ entries.Proper ∧ rest.Proper

instance decidableProper : (l : Listing) → Decidable l.Proper
  | nil => .isTrue trivial
  | file name _ rest =>
    have := decidableProper rest
    inferInstanceAs (Decidable (Path.isName name = true ∧ name ∉ rest.entryNames ∧ rest.Proper))
  | dir name entries rest =>
    have := decidableProper entries
    have := decidableProper rest
    inferInstanceAs (Decidable (Path.isName name = true ∧ name ∉ rest.entryNames ∧
      entries.Proper ∧ rest.Proper))

theorem find?_eq_none {l : Listing} {name : Bytes} (h : name ∉ l.entryNames) :
    l.find? name = none := by
  induction l with
  | nil => rfl
  | file n content rest ih =>
    rw [entryNames, List.mem_cons, not_or] at h
    rw [find?, if_neg (Ne.symm h.1), ih h.2]
  | dir n entries rest _ ih =>
    rw [entryNames, List.mem_cons, not_or] at h
    rw [find?, if_neg (Ne.symm h.1), ih h.2]

theorem mem_entryNames {l : Listing} {name : Bytes} {node : Node} (h : l.find? name = some node) :
    name ∈ l.entryNames := by
  by_cases hmem : name ∈ l.entryNames
  · exact hmem
  · rw [find?_eq_none hmem] at h
    exact absurd h (by simp)

/-- What a proper directory holds has a proper name, and a directory in it is proper. -/
theorem Proper.of_find? {l : Listing} (h : l.Proper) {name : Bytes} {node : Node}
    (hfind : l.find? name = some node) :
    Path.isName name = true ∧ ∀ entries, node = .dir entries → entries.Proper := by
  induction l with
  | nil => simp [find?] at hfind
  | file n content rest ih =>
    rw [find?] at hfind
    split at hfind
    · next hname =>
      rw [Option.some.injEq] at hfind
      rw [← hname, ← hfind]
      exact ⟨h.1, by simp⟩
    · exact ih h.2.2 hfind
  | dir n entries rest _ ih =>
    rw [find?] at hfind
    split at hfind
    · next hname =>
      rw [Option.some.injEq] at hfind
      rw [← hname, ← hfind]
      refine ⟨h.1, ?_⟩
      intro inside he
      rw [Node.dir.injEq] at he
      exact he ▸ h.2.2.1
    · exact ih h.2.2.2 hfind

/-- So does all that it holds further below. -/
theorem Proper.of_at? {l : Listing} (h : l.Proper) {names : List Bytes} {node : Node}
    (hat : l.at? names = some node) :
    (∀ n ∈ names, Path.isName n = true) ∧ ∀ entries, node = .dir entries → entries.Proper := by
  induction names generalizing l with
  | nil =>
    rw [at?, Option.some.injEq] at hat
    refine ⟨by simp, ?_⟩
    rintro entries rfl
    rw [Node.dir.injEq] at hat
    exact hat ▸ h
  | cons name names ih =>
    rw [at?_cons] at hat
    obtain ⟨next, hfind, hnext⟩ := Option.bind_eq_some_iff.1 hat
    have hname := h.of_find? hfind
    cases next with
    | file content =>
      -- a file ends the way
      cases names with
      | nil =>
        rw [Node.at?, Option.some.injEq] at hnext
        rw [← hnext]
        exact ⟨by simpa using hname.1, by simp⟩
      | cons more names => simp [Node.at?] at hnext
    | dir entries =>
      rw [Node.at?_dir] at hnext
      have hrest := ih (hname.2 entries rfl) hnext
      refine ⟨?_, hrest.2⟩
      intro n hn
      rcases List.mem_cons.1 hn with rfl | hn
      · exact hname.1
      · exact hrest.1 n hn

/-! ## Following a path -/

/-- Names of entries are followed one by one. -/
theorem followFrom_names {root : Listing} {here ns : List Bytes} {node : Node}
    (h : root.at? (here ++ ns) = some node) (hns : ∀ n ∈ ns, Path.isName n = true) :
    root.followFrom here ns = .ok (here ++ ns) := by
  induction ns generalizing here with
  | nil => rw [followFrom, List.append_nil]
  | cons n ns ih =>
    have hname := Path.isName_iff.1 (hns n List.mem_cons_self)
    have hcut : here ++ n :: ns = (here ++ [n]) ++ ns := by simp
    have hbehind : root.at? ((here ++ [n]) ++ ns) = some node := by rwa [← hcut]
    have hrest := ih hbehind fun m hm => hns m (List.mem_cons_of_mem _ hm)
    rw [at?_append] at h
    obtain ⟨next, hnext, hbelow⟩ := Option.bind_eq_some_iff.1 h
    cases next with
    | file content => simp [Node.at?] at hbelow
    | dir entries =>
      rw [Node.at?_dir, at?_cons] at hbelow
      obtain ⟨found, hfound, -⟩ := Option.bind_eq_some_iff.1 hbelow
      rw [followFrom, hnext]
      simp only [hname.1, hname.2.1, hname.2.2.1, List.isEmpty_iff, beq_iff_eq, Bool.or_eq_true,
        or_self, if_false, hfound]
      rw [hrest, hcut]

theorem follow_ofNames {root : Listing} {ns : List Bytes} {node : Node}
    (h : root.at? ns = some node) (hns : ∀ n ∈ ns, Path.isName n = true) :
    root.follow (Path.ofNames ns) = .ok ns := by
  by_cases hne : ns = []
  · rw [hne]
    rfl
  · rw [follow, Path.segments_ofNames hne hns]
    show root.followFrom [] ns = .ok ns
    have hroot : root.at? ([] ++ ns) = some node := h
    exact followFrom_names hroot hns

theorem node?_ofNames {root : Listing} {ns : List Bytes} {node : Node}
    (h : root.at? ns = some node) (hns : ∀ n ∈ ns, Path.isName n = true) :
    root.node? (Path.ofNames ns) = some node := by
  rw [node?, follow_ofNames h hns]
  exact h

/-- Whether a path is spelled from the names of a file of the tree. -/
def Spells (root : Listing) (path : Bytes) : Prop :=
  ∃ names content, path = Path.ofNames names ∧ root.at? names = some (.file content)

/-- Such a path is known by its names. -/
theorem Spells.names {root : Listing} (h : root.Proper) {path : Bytes} (hpath : root.Spells path) :
    Path.ofNames (Path.names path) = path ∧ root.follow path = .ok (Path.names path) ∧
      ∃ content, root.at? (Path.names path) = some (.file content) := by
  obtain ⟨names, content, rfl, hat⟩ := hpath
  have hnames := (h.of_at? hat).1
  rw [Path.names_ofNames hnames]
  exact ⟨rfl, follow_ofNames hat hnames, content, hat⟩

/-- Following segments from an entry leads to an entry. -/
theorem exists_of_followFrom {root : Listing} {here segments ns : List Bytes}
    (h : root.followFrom here segments = .ok ns) (hhere : (root.at? here).isSome = true) :
    (root.at? ns).isSome = true := by
  induction segments generalizing here with
  | nil =>
    rw [followFrom, Except.ok.injEq] at h
    rwa [← h]
  | cons segment segments ih =>
    rw [followFrom] at h
    split at h
    · next entries hentries =>
      split at h
      · exact ih h hhere
      · split at h
        · -- a way back is the beginning of the way that led here
          apply ih h
          rcases List.eq_nil_or_concat here with rfl | ⟨front, last, rfl⟩
          · exact hhere
          · rw [List.concat_eq_append] at hhere ⊢
            rw [List.dropLast_concat]
            rw [at?_append] at hhere
            cases hfront : root.at? front with
            | none => simp [hfront] at hhere
            | some node => rfl
        · split at h
          · next node hnode =>
            apply ih h
            rw [at?_append, hentries, Option.bind_some, Node.at?_dir, at?_cons, hnode]
            rfl
          · simp at h
    · simp at h
    · simp at h

theorem exists_of_follow {root : Listing} {path : Bytes} {ns : List Bytes}
    (h : root.follow path = .ok ns) : ∃ node, root.at? ns = some node :=
  Option.isSome_iff_exists.1 (exists_of_followFrom h rfl)

/-- A path that ends with a name leads to an entry of that name. -/
theorem getLast?_of_followFrom {root : Listing} {here segments ns : List Bytes} {name : Bytes}
    (hname : Path.isName name = true)
    (h : root.followFrom here (segments ++ [name]) = .ok ns) : ns.getLast? = some name := by
  induction segments generalizing here with
  | nil =>
    have hsegment := Path.isName_iff.1 hname
    rw [List.nil_append, followFrom] at h
    split at h
    · simp only [hsegment.1, hsegment.2.1, hsegment.2.2.1, List.isEmpty_iff, beq_iff_eq,
        Bool.or_eq_true, or_self, if_false] at h
      split at h
      · rw [followFrom, Except.ok.injEq] at h
        rw [← h, List.getLast?_concat]
      · simp at h
    · simp at h
    · simp at h
  | cons segment segments ih =>
    rw [List.cons_append, followFrom] at h
    split at h
    · split at h
      · exact ih h
      · split at h
        · exact ih h
        · split at h
          · exact ih h
          · simp at h
    · simp at h
    · simp at h

end Listing

end YapAssist
