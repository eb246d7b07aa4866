import Mathlib.Data.List.Induction
import YapAssist.Proofs.Workspace.Search
import YapAssist.Workspace.Store

/-!
# Files in memory over a whole run

Files are inserted one after the other, some of them again and again. What a store then holds is
known from the run alone: the names in the order in which they first came, each with the text that
came last.

* `Store.candidates_insert`, `Store.find?_insert`, what one insertion changes;
* `Store.Holds`, the contents of a store after a run, kept by every insertion (`Store.Holds.insert`)
  and so by a whole run (`Store.holds_insertAll`);
* `Store.locate_insertAll`, the contents after a run and what a search through them finds.
-/

namespace YapAssist

namespace Store

/-! ## One insertion -/

theorem map_fst_put (file : FileId) (text : Text) (files : List (FileId × Text)) :
    (put file text files).map Prod.fst =
      if file ∈ files.map Prod.fst then files.map Prod.fst else files.map Prod.fst ++ [file] := by
  induction files with
  | nil => rfl
  | cons entry files ih =>
    unfold put
    by_cases hentry : entry.1 = file
    · simp [hentry]
    · by_cases hmem : file ∈ files.map Prod.fst
      · rw [if_neg hentry, List.map_cons, ih, if_pos hmem, List.map_cons,
          if_pos (List.mem_cons_of_mem _ hmem)]
      · have hnone : file ∉ entry.1 :: files.map Prod.fst := by
          simpa [Ne.symm hentry] using hmem
        rw [if_neg hentry, List.map_cons, ih, if_neg hmem, List.map_cons, if_neg hnone,
          List.cons_append]

theorem lookup_entry (entry : FileId × Text) (files : List (FileId × Text)) (other : FileId) :
    (entry :: files).lookup other =
      if other = entry.1 then some entry.2 else files.lookup other := by
  rw [List.lookup_cons]
  by_cases hother : other = entry.1
  · simp [hother]
  · rw [beq_false_of_ne hother, if_neg hother]

theorem lookup_put (file other : FileId) (text : Text) (files : List (FileId × Text)) :
    (put file text files).lookup other =
      if other = file then some text else files.lookup other := by
  induction files with
  | nil => exact lookup_entry (file, text) [] other
  | cons entry files ih =>
    unfold put
    by_cases hentry : entry.1 = file
    · rw [if_pos hentry, lookup_entry, lookup_entry, hentry]
      by_cases hother : other = file
      · rw [if_pos hother, if_pos hother]
      · rw [if_neg hother, if_neg hother, if_neg hother]
    · rw [if_neg hentry, lookup_entry, lookup_entry, ih]
      by_cases hother : other = entry.1
      · have hne : other ≠ file := by rwa [hother]
        rw [if_pos hother, if_pos hother, if_neg hne]
      · rw [if_neg hother, if_neg hother]

theorem candidates_insert (store : Store) (file : FileId) (text : Text) :
    (store.insert file text).candidates =
      if file ∈ store.candidates then store.candidates else store.candidates ++ [file] :=
  map_fst_put file text store.files

theorem find?_insert (store : Store) (file other : FileId) (text : Text) :
    (store.insert file text).find? other = if other = file then some text else store.find? other :=
  lookup_put file other text store.files

/-! ## A run of insertions -/

/-- The store after inserting files one after the other. -/
def insertAll (store : Store) (run : List (FileId × Text)) : Store :=
  run.foldl (fun store entry => store.insert entry.1 entry.2) store

theorem insertAll_concat (store : Store) (run : List (FileId × Text)) (file : FileId)
    (text : Text) :
    store.insertAll (run ++ [(file, text)]) = (store.insertAll run).insert file text := by
  unfold insertAll
  rw [List.foldl_append]
  rfl

/-- The text that came last for `file` is `text`. -/
def IsLatest (run : List (FileId × Text)) (file : FileId) (text : Text) : Prop :=
  ∃ before after, run = before ++ (file, text) :: after ∧ file ∉ after.map Prod.fst

/-- The name `a` came for the first time before `b` did. -/
def CameBefore (run : List (FileId × Text)) (a b : FileId) : Prop :=
  (run.map Prod.fst).idxOf a < (run.map Prod.fst).idxOf b

theorem isLatest_concat (run : List (FileId × Text)) (file other : FileId) (text found : Text) :
    IsLatest (run ++ [(file, text)]) other found ↔
      if other = file then text = found else IsLatest run other found := by
  unfold IsLatest
  constructor
  · rintro ⟨before, after, hcut, hlast⟩
    rcases List.eq_nil_or_concat after with rfl | ⟨front, last, rfl⟩
    · obtain ⟨-, hentry⟩ := List.append_inj' hcut rfl
      obtain ⟨rfl, rfl⟩ : file = other ∧ text = found := by simpa using hentry
      simp
    · have hcut' : run ++ [(file, text)] = (before ++ (other, found) :: front) ++ [last] := by
        rw [hcut]
        simp
      obtain ⟨hrun, hentry⟩ := List.append_inj' hcut' rfl
      have hentry' : last = (file, text) := by simpa using hentry.symm
      rw [hentry'] at hlast
      have hne : other ∉ front.map Prod.fst ∧ other ≠ file := by simpa using hlast
      rw [if_neg hne.2]
      exact ⟨before, front, hrun, hne.1⟩
  · intro h
    by_cases hother : other = file
    · rw [if_pos hother] at h
      exact ⟨run, [], by rw [hother, h], by simp⟩
    · rw [if_neg hother] at h
      obtain ⟨before, after, rfl, hlast⟩ := h
      refine ⟨before, after ++ [(file, text)], by simp, ?_⟩
      simpa [hother] using hlast

/-- Names that have come keep their order. -/
theorem CameBefore.concat {run : List (FileId × Text)} {a b : FileId} (h : CameBefore run a b)
    (ha : a ∈ run.map Prod.fst) (hb : b ∈ run.map Prod.fst) (entry : FileId × Text) :
    CameBefore (run ++ [entry]) a b := by
  unfold CameBefore at h ⊢
  rwa [List.map_append, List.idxOf_append_of_mem ha, List.idxOf_append_of_mem hb]

/-- A new name comes after all others. -/
theorem cameBefore_new {run : List (FileId × Text)} {a file : FileId} (ha : a ∈ run.map Prod.fst)
    (hfile : file ∉ run.map Prod.fst) (text : Text) :
    CameBefore (run ++ [(file, text)]) a file := by
  have hlt := List.idxOf_lt_length_iff.2 ha
  unfold CameBefore
  rw [List.map_append, List.idxOf_append_of_mem ha, List.idxOf_append_of_notMem hfile]
  omega

/-- What a store holds after a run of insertions into an empty one. -/
structure Holds (run : List (FileId × Text)) (store : Store) : Prop where
  mem_iff : ∀ file, file ∈ store.candidates ↔ file ∈ run.map Prod.fst
  ordered : store.candidates.Pairwise (CameBefore run)
  latest : ∀ file text, store.find? file = some text ↔ IsLatest run file text

theorem holds_empty : Holds [] empty := by
  refine ⟨by simp [candidates, empty], List.Pairwise.nil, fun file text => ?_⟩
  simp [find?, empty, IsLatest]

/-- An insertion is one more step of the run. -/
theorem Holds.insert {run : List (FileId × Text)} {store : Store} (h : Holds run store)
    (file : FileId) (text : Text) : Holds (run ++ [(file, text)]) (store.insert file text) := by
  have hkept : store.candidates.Pairwise (CameBefore (run ++ [(file, text)])) := by
    apply List.Pairwise.imp_of_mem _ h.ordered
    intro a b ha hb hab
    exact hab.concat ((h.mem_iff a).1 ha) ((h.mem_iff b).1 hb) _
  refine ⟨fun other => ?_, ?_, fun other found => ?_⟩
  · rw [candidates_insert, List.map_append, List.mem_append, ← h.mem_iff other]
    by_cases hmem : file ∈ store.candidates
    · rw [if_pos hmem]
      constructor
      · exact .inl
      · intro hother
        obtain hother | hother := hother
        · exact hother
        · obtain rfl : other = file := by simpa using hother
          exact hmem
    · rw [if_neg hmem, List.mem_append]
      rfl
  · rw [candidates_insert]
    by_cases hmem : file ∈ store.candidates
    · rw [if_pos hmem]
      exact hkept
    · rw [if_neg hmem, List.pairwise_append]
      refine ⟨hkept, List.pairwise_singleton _ _, fun a ha b hb => ?_⟩
      rw [List.mem_singleton.1 hb]
      exact cameBefore_new ((h.mem_iff a).1 ha) (fun hfile => hmem ((h.mem_iff file).2 hfile)) text
  · rw [find?_insert, isLatest_concat]
    by_cases hother : other = file
    · rw [if_pos hother, if_pos hother, Option.some.injEq]
    · rw [if_neg hother, if_neg hother, h.latest]

/-- A whole run of insertions. -/
theorem holds_insertAll (run : List (FileId × Text)) : Holds run (empty.insertAll run) := by
  induction run using List.reverseRecOn with
  | nil => exact holds_empty
  | append_singleton run entry ih =>
    rw [insertAll_concat]
    exact ih.insert entry.1 entry.2

/-! ## Reading and searching -/

theorem read_eq_ok_iff (store : Store) (file : FileId) (text : Text) :
    store.read file = .ok text ↔ store.find? file = some text := by
  unfold read
  cases store.find? file <;> simp

/-- Only what the store does not offer is unknown to it, and nothing else can go wrong. -/
theorem read_eq_error_iff (store : Store) (file : FileId) (fault : Fault) :
    store.read file = .error fault ↔ fault = .unknownFile file ∧ file ∉ store.candidates := by
  have hmissing : store.find? file = none ↔ file ∉ store.candidates := by
    unfold find? candidates
    rw [List.lookup_eq_none_iff, List.mem_map]
    constructor
    · intro h hmem
      obtain ⟨entry, hentry, hname⟩ := hmem
      have hne := h entry hentry
      simp [hname] at hne
    · intro h entry hentry
      have hne : file ≠ entry.1 := fun hname => h ⟨entry, hentry, hname.symm⟩
      simpa using hne
  rw [← hmissing]
  unfold read
  cases store.find? file with
  | some text => simp
  | none => simp [eq_comm]

end Store

/-- The host of a store, with all of its files readable and nothing that cancels a search. -/
def Host.ofStore (store : Store) : Host := ⟨store, [], none, false⟩

namespace Host

/-- Such a host answers every reading from its store. -/
theorem readings_ofStore (store : Store) (files : List FileId) :
    (ofStore store).source.readings files (ofStore store) =
      files.map fun file => ⟨file, store.read file, ofStore store⟩ := by
  induction files with
  | nil => rfl
  | cons file files ih =>
    rw [List.map_cons, ← ih]
    rfl

/-- A search finds the first file that declares the name. -/
theorem result_locate_ofStore (store : Store) (name : Text) (exclude : Option FileId)
    (location : Location) :
    ((ofStore store).source.locate name exclude (ofStore store)).result = some location ↔
      (store.find? location.file).bind (Declaration.find? · name) = some location.position ∧
        ∃ before after, (ofStore store).source.eligible exclude =
            before ++ location.file :: after ∧
          ∀ other ∈ before, (store.find? other).bind (Declaration.find? · name) = none := by
  have hdeclares : ∀ file, Reading.declares? name ⟨file, store.read file, ofStore store⟩ =
      (store.find? file).bind (Declaration.find? · name) := by
    intro file
    unfold Reading.declares? Store.read
    cases store.find? file <;> rfl
  rw [Source.result_locate]
  cases hname : isIdentifier name with
  | false =>
    -- nothing is declared by such a name
    have hnone : ∀ text, Declaration.find? text name = none := by
      intro text
      unfold Declaration.find?
      rw [hname]
      rfl
    rw [Source.search_eq_idle (.inl hname)]
    simp [hnone, Outcome.idle]
  | true =>
    rw [(Source.ends_search hname rfl exclude).result_eq_some_iff, Source.trail, readings_ofStore]
    constructor
    · intro h
      obtain ⟨before, r, after, hcut, hfile, hhere, hbefore, -⟩ := h
      obtain ⟨front, back, hsplit, rfl, hback⟩ := List.map_eq_append_iff.1 hcut
      obtain ⟨file, rest, rfl, rfl, -⟩ := List.map_eq_cons_iff.1 hback
      obtain rfl : file = location.file := hfile
      rw [hdeclares] at hhere
      refine ⟨hhere, front, rest, hsplit, fun other hother => ?_⟩
      rw [← hdeclares]
      exact hbefore _ (List.mem_map_of_mem hother)
    · intro h
      obtain ⟨hhere, front, rest, hsplit, hbefore⟩ := h
      refine ⟨_, _, _, by rw [hsplit, List.map_append, List.map_cons], rfl, ?_, ?_, ?_⟩
      · rw [hdeclares, hhere]
      · intro q hq
        obtain ⟨other, hother, rfl⟩ := List.mem_map.1 hq
        rw [hdeclares, hbefore other hother]
      · intro q hq
        obtain hq | hq := List.mem_append.1 hq
        · obtain ⟨other, -, rfl⟩ := List.mem_map.1 hq
          rfl
        · rw [List.mem_singleton.1 hq]
          rfl

end Host

namespace Store

theorem CameBefore.asymm {run : List (FileId × Text)} {a b : FileId} (h : CameBefore run a b) :
    ¬ CameBefore run b a := by
  unfold CameBefore at h ⊢
  omega

/-- In a list in order, what stands before an element is what came before it. -/
theorem exists_cut_iff {run : List (FileId × Text)} {files : List FileId}
    (h : files.Pairwise (CameBefore run)) (file : FileId) (P : FileId → Prop) :
    (∃ before after, files = before ++ file :: after ∧ ∀ other ∈ before, P other) ↔
      file ∈ files ∧ ∀ other ∈ files, CameBefore run other file → P other := by
  constructor
  · intro hcut
    obtain ⟨before, after, rfl, hbefore⟩ := hcut
    obtain ⟨-, hbehind, -⟩ := List.pairwise_append.1 h
    refine ⟨by simp, fun other hother hcame => ?_⟩
    rw [List.mem_append, List.mem_cons] at hother
    obtain hother | rfl | hother := hother
    · exact hbefore other hother
    · exact absurd hcame hcame.asymm
    · exact absurd hcame (List.rel_of_pairwise_cons hbehind hother).asymm
  · intro hmem
    obtain ⟨hfile, hall⟩ := hmem
    obtain ⟨before, after, rfl⟩ := List.append_of_mem hfile
    obtain ⟨-, -, hcross⟩ := List.pairwise_append.1 h
    refine ⟨before, after, rfl, fun other hother => ?_⟩
    exact hall other (List.mem_append_left _ hother) (hcross other hother file List.mem_cons_self)

theorem Holds.nodup {run : List (FileId × Text)} {store : Store} (h : Holds run store) :
    store.candidates.Nodup := by
  apply h.ordered.imp
  intro a b hcame hab
  rw [hab] at hcame
  exact hcame.asymm hcame

theorem Holds.mem_of_isLatest {run : List (FileId × Text)} {store : Store} (h : Holds run store)
    {file : FileId} {text : Text} (hlatest : IsLatest run file text) :
    file ∈ store.candidates := by
  obtain ⟨before, after, hrun, -⟩ := hlatest
  rw [h.mem_iff, hrun]
  simp

theorem mem_eligible_ofStore (store : Store) (exclude : Option FileId) (file : FileId) :
    file ∈ (Host.ofStore store).source.eligible exclude ↔
      file ∈ store.candidates ∧ exclude ≠ some file := by
  show file ∈ store.candidates.filter (fun file => decide (exclude ≠ some file)) ↔ _
  rw [List.mem_filter, decide_eq_true_eq]

/-- What a search finds in a store depends on the order of the names and on the last texts. -/
theorem Holds.result_locate_iff {run : List (FileId × Text)} {store : Store} (h : Holds run store)
    (name : Text) (exclude : Option FileId) (file : FileId) (p : Position) :
    ((Host.ofStore store).source.locate name exclude (Host.ofStore store)).result =
        some ⟨file, p⟩ ↔
      exclude ≠ some file ∧
      (∃ text, IsLatest run file text ∧ Declaration.find? text name = some p) ∧
      ∀ other text, CameBefore run other file → exclude ≠ some other →
        IsLatest run other text → Declaration.find? text name = none := by
  have hordered : ((Host.ofStore store).source.eligible exclude).Pairwise (CameBefore run) :=
    h.ordered.filter _
  rw [Host.result_locate_ofStore, exists_cut_iff hordered, Option.bind_eq_some_iff]
  simp only [h.latest, mem_eligible_ofStore]
  constructor
  · intro hfound
    obtain ⟨htext, ⟨-, hexclude⟩, hbefore⟩ := hfound
    refine ⟨hexclude, htext, fun other text hcame hother hlatest => ?_⟩
    have hnone := hbefore other ⟨h.mem_of_isLatest hlatest, hother⟩ hcame
    rwa [(h.latest other text).2 hlatest] at hnone
  · intro hfirst
    obtain ⟨hexclude, ⟨text, hlatest, hfind⟩, hbefore⟩ := hfirst
    refine ⟨⟨text, hlatest, hfind⟩, ⟨h.mem_of_isLatest hlatest, hexclude⟩, ?_⟩
    intro other hother hcame
    rw [Option.bind_eq_none_iff]
    intro found hfound
    exact hbefore other found hcame hother.2 ((h.latest other found).1 hfound)

/-- **Files in memory over a whole run.** After any insertions into an empty store its files are the
names that came, each once, in the order in which they first came; the text of a file is the one
that came last, and exactly the names that never came are unknown. A search that nobody cancels
finds the name in the first of these files, apart from the one to leave out, whose last text
declares it, whatever was replaced in between. -/
theorem locate_insertAll (run : List (FileId × Text)) :
    let store := empty.insertAll run
    (∀ file, file ∈ store.candidates ↔ file ∈ run.map Prod.fst) ∧
    store.candidates.Nodup ∧ store.candidates.Pairwise (CameBefore run) ∧
    (∀ file text, store.read file = .ok text ↔ IsLatest run file text) ∧
    (∀ file fault, store.read file = .error fault ↔
      fault = .unknownFile file ∧ file ∉ run.map Prod.fst) ∧
    ∀ name exclude file p,
      ((Host.ofStore store).source.locate name exclude (Host.ofStore store)).result =
          some ⟨file, p⟩ ↔
        exclude ≠ some file ∧
        (∃ text, IsLatest run file text ∧ Declaration.find? text name = some p) ∧
        ∀ other text, CameBefore run other file → exclude ≠ some other →
          IsLatest run other text → Declaration.find? text name = none := by
  intro store
  have h : Holds run store := holds_insertAll run
  refine ⟨h.mem_iff, h.nodup, h.ordered, ?_, ?_, ?_⟩
  · intro file text
    rw [read_eq_ok_iff, h.latest]
  · intro file fault
    rw [read_eq_error_iff, h.mem_iff]
  · exact h.result_locate_iff

end Store

end YapAssist
