import Mathlib.Data.List.Basic
import YapAssist.Workspace.Source

/-!
# The first file that declares a name

A search is compared with its trail: what would be read from the files of the workspace, one after
the other, if nothing ever stopped the search. The search itself stops at the first reading that
declares the name, or that leaves the host cancelled.

* `Source.searchFrom_filter`, leaving a file out is searching the files without it;
* `Source.ends_searchFrom`, the three ways in which a search ends;
* `Source.state_searchFrom`, the state that a search leaves is that of its last reading;
* `Source.locate_first_match`, the result of a search, the files that it reads and the state that it
  leaves.
-/

namespace YapAssist

variable {σ : Type}

/-! ## Readings -/

/-- What was read from a file, and the state of the host afterwards. -/
structure Reading (σ : Type) where
  file : FileId
  answer : Except Fault Text
  state : σ

namespace Reading

/-- The place at which what was read declares `name`; a file that cannot be read declares
nothing. -/
def declares? (name : Text) (r : Reading σ) : Option Position :=
  match r.answer with
  | .ok text => Declaration.find? text name
  | .error _ => none

theorem hit?_answer_eq_none_iff (name : Text) (r : Reading σ) :
    Source.hit? name r.file r.answer = none ↔ r.declares? name = none := by
  unfold Source.hit? declares?
  cases r.answer with
  | error fault => simp
  | ok text => simp

theorem hit?_answer_eq_some_iff (name : Text) (r : Reading σ) (hit : Hit) :
    Source.hit? name r.file r.answer = some hit ↔
      r.declares? name = some hit.location.position ∧ r.file = hit.location.file ∧
        r.answer = .ok hit.text := by
  obtain ⟨⟨file, p⟩, text⟩ := hit
  unfold Source.hit? declares?
  cases r.answer with
  | error fault => simp
  | ok found =>
    simp only [Option.map_eq_some_iff, Hit.mk.injEq, Location.mk.injEq, Except.ok.injEq]
    constructor
    · rintro ⟨q, hq, ⟨hfile, rfl⟩, htext⟩
      exact ⟨hq, hfile, htext⟩
    · rintro ⟨hp, hfile, htext⟩
      exact ⟨p, hp, ⟨hfile, rfl⟩, htext⟩

/-- The state of the last of some readings, `s` if there are none. -/
def lastState : List (Reading σ) → σ → σ
  | [], s => s
  | r :: read, _ => lastState read r.state

end Reading

namespace Source

/-- What is read from a list of files, one after the other. -/
def readings (source : Source σ) : (files : List FileId) → σ → List (Reading σ)
  | [], _ => []
  | file :: files, s =>
    ⟨file, (source.read file s).1, (source.read file s).2⟩ ::
      readings source files (source.read file s).2

@[simp] theorem map_file_readings (source : Source σ) (files : List FileId) (s : σ) :
    (source.readings files s).map Reading.file = files := by
  induction files generalizing s with
  | nil => rfl
  | cons file files ih => rw [readings, List.map_cons, ih]

/-- Readings from the beginning of a list of files are what is read from these files alone. -/
theorem readings_map_file {source : Source σ} {files : List FileId} {s : σ}
    {read : List (Reading σ)} (h : read <+: source.readings files s) :
    source.readings (read.map Reading.file) s = read := by
  induction files generalizing s read with
  | nil =>
    rw [List.prefix_nil.1 h]
    rfl
  | cons file files ih =>
    obtain rfl | ⟨more, rfl, hmore⟩ := List.prefix_cons_iff.1 h
    · rfl
    · rw [List.map_cons, readings, ih hmore]

/-- The files of a workspace in the order in which they are searched, apart from `exclude`. -/
def eligible (source : Source σ) (exclude : Option FileId) : List FileId :=
  source.candidates.filter fun file => decide (exclude ≠ some file)

/-- What a search that nothing stops would read. -/
def trail (source : Source σ) (exclude : Option FileId) (s : σ) : List (Reading σ) :=
  source.readings (source.eligible exclude) s

theorem map_file_trail (source : Source σ) (exclude : Option FileId) (s : σ) :
    (source.trail exclude s).map Reading.file = source.eligible exclude :=
  source.map_file_readings _ s

theorem not_mem_eligible (source : Source σ) (file : FileId) :
    file ∉ source.eligible (some file) := by
  simp [eligible]

/-- Whether a search ends with a reading. -/
def stops (source : Source σ) (name : Text) (r : Reading σ) : Bool :=
  (r.declares? name).isSome || source.cancelled r.state

theorem stops_eq_false_iff {source : Source σ} {name : Text} {r : Reading σ} :
    source.stops name r = false ↔ r.declares? name = none ∧ source.cancelled r.state = false := by
  simp [stops]

/-! ## How a search ends -/

/-- The result of a search along `trail`, and the files that it reads. -/
inductive Ends (source : Source σ) (name : Text) (trail : List (Reading σ)) :
    Option Hit → List FileId → Prop
  | found {before : List (Reading σ)} {r : Reading σ} {after : List (Reading σ)} {hit : Hit}
      (cut : trail = before ++ r :: after) (passed : ∀ q ∈ before, source.stops name q = false)
      (here : hit? name r.file r.answer = some hit) (live : source.cancelled r.state = false) :
      Ends source name trail (some hit) ((before ++ [r]).map Reading.file)
  | cancelled {before : List (Reading σ)} {r : Reading σ} {after : List (Reading σ)}
      (cut : trail = before ++ r :: after) (passed : ∀ q ∈ before, source.stops name q = false)
      (stop : source.cancelled r.state = true) :
      Ends source name trail none ((before ++ [r]).map Reading.file)
  | exhausted (passed : ∀ q ∈ trail, source.stops name q = false) :
      Ends source name trail none (trail.map Reading.file)

/-- A reading in front that lets the search go on. -/
theorem Ends.cons {source : Source σ} {name : Text} {trail : List (Reading σ)}
    {result : Option Hit} {reads : List FileId} {r : Reading σ}
    (h : Ends source name trail result reads) (hr : source.stops name r = false) :
    Ends source name (r :: trail) result (r.file :: reads) := by
  cases h with
  | found cut passed here live =>
    subst cut
    exact .found (List.cons_append ..).symm (List.forall_mem_cons.2 ⟨hr, passed⟩) here live
  | cancelled cut passed stop =>
    subst cut
    exact .cancelled (List.cons_append ..).symm (List.forall_mem_cons.2 ⟨hr, passed⟩) stop
  | exhausted passed => exact .exhausted (List.forall_mem_cons.2 ⟨hr, passed⟩)

theorem Ends.reads_isPrefix {source : Source σ} {name : Text} {trail : List (Reading σ)}
    {result : Option Hit} {reads : List FileId} (h : Ends source name trail result reads) :
    reads <+: trail.map Reading.file := by
  cases h with
  | found cut passed here live => subst cut; simp
  | cancelled cut passed stop => subst cut; simp
  | exhausted passed => exact List.prefix_refl _

theorem searchFrom_of_cancelled {source : Source σ} {s : σ} (h : source.cancelled s = true)
    (name : Text) (exclude : Option FileId) (files : List FileId) :
    source.searchFrom name exclude files s = .idle none s := by
  cases files with
  | nil => rfl
  | cons file files => rw [searchFrom, if_pos h]

/-- Leaving a file out is searching the files without it. -/
theorem searchFrom_filter (source : Source σ) (name : Text) (exclude : Option FileId)
    (files : List FileId) (s : σ) :
    source.searchFrom name exclude files s =
      source.searchFrom name none (files.filter fun file => decide (exclude ≠ some file)) s := by
  induction files generalizing s with
  | nil => rfl
  | cons file files ih =>
    cases hs : source.cancelled s with
    | true => rw [searchFrom_of_cancelled hs, searchFrom_of_cancelled hs]
    | false =>
      by_cases he : exclude = some file
      · rw [searchFrom, if_neg (by simp [hs]), if_pos he, ih,
          List.filter_cons_of_neg (by simp [he])]
      · rw [List.filter_cons_of_pos (by simp [he]), searchFrom, searchFrom]
        simp only [hs, he, ih, reduceCtorEq, Bool.false_eq_true, if_false]

/-- A search that is not cancelled from the start ends in one of three ways. -/
theorem ends_searchFrom (source : Source σ) (name : Text) (files : List FileId) (s : σ)
    (hs : source.cancelled s = false) :
    Ends source name (source.readings files s) (source.searchFrom name none files s).result
      (source.searchFrom name none files s).reads := by
  induction files generalizing s with
  | nil => exact .exhausted (by simp [readings])
  | cons file files ih =>
    rw [searchFrom, if_neg (by simp [hs]), if_neg (by simp), readings]
    set answer := source.read file s with hanswer
    let r : Reading σ := ⟨file, answer.1, answer.2⟩
    have hempty : ∀ q ∈ ([] : List (Reading σ)), source.stops name q = false := by simp
    cases hhit : hit? name file answer.1 with
    | some hit =>
      simp only [hhit]
      cases hlive : source.cancelled answer.2 with
      | true => exact Ends.cancelled (r := r) (List.nil_append _).symm hempty hlive
      | false => exact Ends.found (r := r) (List.nil_append _).symm hempty hhit hlive
    | none =>
      simp only [hhit]
      have hnone : r.declares? name = none := (Reading.hit?_answer_eq_none_iff name r).1 hhit
      cases hlive : source.cancelled answer.2 with
      | true =>
        rw [searchFrom_of_cancelled hlive]
        exact Ends.cancelled (r := r) (List.nil_append _).symm hempty hlive
      | false => exact (ih answer.2 hlive).cons (stops_eq_false_iff.2 ⟨hnone, hlive⟩)

/-- A search leaves the state that reading its files leaves. -/
theorem state_searchFrom (source : Source σ) (name : Text) (exclude : Option FileId)
    (files : List FileId) (s : σ) :
    (source.searchFrom name exclude files s).state =
      Reading.lastState (source.readings (source.searchFrom name exclude files s).reads s) s := by
  induction files generalizing s with
  | nil => rfl
  | cons file files ih =>
    rw [searchFrom]
    split
    · rfl
    · split
      · exact ih s
      · dsimp only
        cases hit? name file (source.read file s).1 with
        | some hit => rfl
        | none => exact ih (source.read file s).2

theorem ends_search {source : Source σ} {name : Text} {s : σ} (hname : isIdentifier name = true)
    (hs : source.cancelled s = false) (exclude : Option FileId) :
    Ends source name (source.trail exclude s) (source.search name exclude s).result
      (source.search name exclude s).reads := by
  rw [search, if_pos hname, searchFrom_filter]
  exact source.ends_searchFrom name (source.eligible exclude) s hs

theorem state_search (source : Source σ) (name : Text) (exclude : Option FileId) (s : σ) :
    (source.search name exclude s).state =
      Reading.lastState (source.readings (source.search name exclude s).reads s) s := by
  rw [search]
  split
  · exact source.state_searchFrom name exclude source.candidates s
  · rfl

theorem search_eq_idle {source : Source σ} {name : Text} {s : σ}
    (h : isIdentifier name = false ∨ source.cancelled s = true) (exclude : Option FileId) :
    source.search name exclude s = .idle none s := by
  rw [search]
  split
  case isFalse => rfl
  case isTrue hname =>
    rcases h with h | h
    · exact absurd hname (by simp [h])
    · exact searchFrom_of_cancelled h name exclude source.candidates

/-! ## The result and the files read -/

@[simp] theorem result_locate (source : Source σ) (name : Text) (exclude : Option FileId) (s : σ) :
    (source.locate name exclude s).result =
      (source.search name exclude s).result.map Hit.location := by
  rw [Option.map_eq_bind]
  rfl

@[simp] theorem reads_locate (source : Source σ) (name : Text) (exclude : Option FileId) (s : σ) :
    (source.locate name exclude s).reads = (source.search name exclude s).reads := rfl

@[simp] theorem state_locate (source : Source σ) (name : Text) (exclude : Option FileId) (s : σ) :
    (source.locate name exclude s).state = (source.search name exclude s).state := rfl

/-- The reading `r`, made after those in `before`, is the first to declare `name`, and it does so at
`location` before anybody cancels. -/
def IsFirstMatch (source : Source σ) (name : Text) (before : List (Reading σ)) (r : Reading σ)
    (location : Location) : Prop :=
  r.file = location.file ∧ r.declares? name = some location.position ∧
    (∀ q ∈ before, q.declares? name = none) ∧ ∀ q ∈ before ++ [r], source.cancelled q.state = false

theorem IsFirstMatch.stops_eq_false {source : Source σ} {name : Text} {before : List (Reading σ)}
    {r : Reading σ} {location : Location} (h : source.IsFirstMatch name before r location) :
    ∀ q ∈ before, source.stops name q = false := by
  obtain ⟨-, -, hnone, hlive⟩ := h
  intro q hq
  exact stops_eq_false_iff.2 ⟨hnone q hq, hlive q (List.mem_append_left _ hq)⟩

theorem isFirstMatch_of_hit {source : Source σ} {name : Text} {before : List (Reading σ)}
    {r : Reading σ} {hit : Hit} (passed : ∀ q ∈ before, source.stops name q = false)
    (here : hit? name r.file r.answer = some hit) (live : source.cancelled r.state = false) :
    source.IsFirstMatch name before r hit.location := by
  obtain ⟨hdeclares, hfile, -⟩ := (Reading.hit?_answer_eq_some_iff name r hit).1 here
  refine ⟨hfile, hdeclares, ?_, ?_⟩
  · intro q hq
    exact (stops_eq_false_iff.1 (passed q hq)).1
  · intro q hq
    rcases List.mem_append.1 hq with hq | hq
    · exact (stops_eq_false_iff.1 (passed q hq)).2
    · rwa [List.mem_singleton.1 hq]

theorem find?_stops_eq_some {source : Source σ} {name : Text}
    {trail before after : List (Reading σ)}
    {r : Reading σ} (cut : trail = before ++ r :: after)
    (passed : ∀ q ∈ before, source.stops name q = false) (hr : source.stops name r = true) :
    trail.find? (source.stops name) = some r := by
  rw [List.find?_eq_some_iff_append]
  refine ⟨hr, before, after, cut, fun q hq => ?_⟩
  rw [passed q hq]
  rfl

/-- A search has the first match of its trail as its result, and no other. -/
theorem Ends.result_eq_some_iff {source : Source σ} {name : Text} {trail : List (Reading σ)}
    {result : Option Hit} {reads : List FileId} (h : Ends source name trail result reads)
    (location : Location) :
    result.map Hit.location = some location ↔
      ∃ before r after, trail = before ++ r :: after ∧
        source.IsFirstMatch name before r location := by
  constructor
  · intro hresult
    cases h with
    | cancelled cut passed stop => cases hresult
    | exhausted passed => cases hresult
    | @found before r after hit cut passed here live =>
      obtain rfl : hit.location = location := Option.some.inj hresult
      exact ⟨before, r, after, cut, isFirstMatch_of_hit passed here live⟩
  · rintro ⟨before', r', after', cut', hmatch⟩
    obtain ⟨hfile, hposition, -, hlive⟩ := id hmatch
    have hlive' : source.cancelled r'.state = false := hlive r' (by simp)
    -- the search and the match both stop at the first reading of the trail that stops anything
    have hfirst : trail.find? (source.stops name) = some r' :=
      find?_stops_eq_some cut' hmatch.stops_eq_false (by simp [stops, hposition])
    cases h with
    | exhausted passed =>
      rw [List.find?_eq_none.2 (by simpa using passed)] at hfirst
      cases hfirst
    | cancelled cut passed stop =>
      rw [find?_stops_eq_some cut passed (by simp [stops, stop]), Option.some.injEq] at hfirst
      rw [hfirst, hlive'] at stop
      cases stop
    | @found before r after hit cut passed here live =>
      obtain ⟨hposition', hfile', -⟩ := (Reading.hit?_answer_eq_some_iff name r hit).1 here
      rw [find?_stops_eq_some cut passed (by simp [stops, hposition']), Option.some.injEq] at hfirst
      rw [hfirst, hposition, Option.some.injEq] at hposition'
      rw [hfirst, hfile] at hfile'
      calc some hit.location
        _ = some ⟨hit.location.file, hit.location.position⟩ := rfl
        _ = some location := by rw [← hposition', ← hfile']

/-- How far along its trail a search reads. -/
theorem Ends.reads_cases {source : Source σ} {name : Text} {trail : List (Reading σ)}
    {result : Option Hit} {reads : List FileId} (h : Ends source name trail result reads) :
    ∃ read rest, trail = read ++ rest ∧ reads = read.map Reading.file ∧
      ((∃ before r location, result.map Hit.location = some location ∧ read = before ++ [r] ∧
          source.IsFirstMatch name before r location) ∨
        (∃ before r, result.map Hit.location = none ∧ read = before ++ [r] ∧
          source.cancelled r.state = true ∧ ∀ q ∈ before, source.stops name q = false) ∨
        (result.map Hit.location = none ∧ rest = [] ∧
          ∀ q ∈ read, source.stops name q = false)) := by
  cases h with
  | @found before r after hit cut passed here live =>
    refine ⟨before ++ [r], after, by rw [cut, List.append_assoc]; rfl, rfl, .inl ?_⟩
    exact ⟨before, r, hit.location, rfl, rfl, isFirstMatch_of_hit passed here live⟩
  | @cancelled before r after cut passed stop =>
    refine ⟨before ++ [r], after, by rw [cut, List.append_assoc]; rfl, rfl, .inr (.inl ?_)⟩
    exact ⟨before, r, rfl, rfl, stop, passed⟩
  | exhausted passed =>
    exact ⟨trail, [], (List.append_nil _).symm, rfl, .inr (.inr ⟨rfl, rfl, passed⟩)⟩

theorem reads_search_isPrefix (source : Source σ) (name : Text) (exclude : Option FileId) (s : σ) :
    (source.search name exclude s).reads <+: source.eligible exclude := by
  by_cases h : isIdentifier name = false ∨ source.cancelled s = true
  · rw [search_eq_idle h]
    exact List.nil_prefix
  · simp only [not_or, Bool.not_eq_false, Bool.not_eq_true] at h
    rw [← source.map_file_trail exclude s]
    exact (ends_search h.1 h.2 exclude).reads_isPrefix

/-- **The first match wins, as long as nobody cancels.** A name is found at a place exactly when it
is an identifier, the search is not cancelled from the start, and the place is that of the first
match along the trail. The search reads the trail up to the first match, or else up to the reading
that cancelled it, or else all of it: files of the workspace in their order, never the one to leave
out, and none at all for what is no identifier or when the search is cancelled from the start. The
host is left in the state of the last reading made. -/
theorem locate_first_match (source : Source σ) (name : Text) (exclude : Option FileId) (s : σ) :
    (∀ location, (source.locate name exclude s).result = some location ↔
      isIdentifier name = true ∧ source.cancelled s = false ∧
        ∃ before r after, source.trail exclude s = before ++ r :: after ∧
          source.IsFirstMatch name before r location) ∧
    (isIdentifier name = false ∨ source.cancelled s = true →
      (source.locate name exclude s).reads = [] ∧ (source.locate name exclude s).state = s) ∧
    (isIdentifier name = true → source.cancelled s = false →
      ∃ read rest, source.trail exclude s = read ++ rest ∧
        (source.locate name exclude s).reads = read.map Reading.file ∧
        (source.locate name exclude s).state = Reading.lastState read s ∧
        ((∃ before r location, (source.locate name exclude s).result = some location ∧
            read = before ++ [r] ∧ source.IsFirstMatch name before r location) ∨
          (∃ before r, (source.locate name exclude s).result = none ∧ read = before ++ [r] ∧
            source.cancelled r.state = true ∧ ∀ q ∈ before, source.stops name q = false) ∨
          ((source.locate name exclude s).result = none ∧ rest = [] ∧
            ∀ q ∈ read, source.stops name q = false))) ∧
    (source.locate name exclude s).reads <+: source.eligible exclude ∧
    ∀ file, exclude = some file → file ∉ (source.locate name exclude s).reads := by
  simp only [result_locate, reads_locate, state_locate]
  refine ⟨fun location => ⟨fun h => ?_, fun h => ?_⟩, fun h => ?_, fun hname hs => ?_, ?_, ?_⟩
  · by_cases hidle : isIdentifier name = false ∨ source.cancelled s = true
    · rw [search_eq_idle hidle] at h
      cases h
    · simp only [not_or, Bool.not_eq_false, Bool.not_eq_true] at hidle
      obtain ⟨hname, hs⟩ := hidle
      exact ⟨hname, hs, ((ends_search hname hs exclude).result_eq_some_iff location).1 h⟩
  · obtain ⟨hname, hs, hmatch⟩ := h
    exact ((ends_search hname hs exclude).result_eq_some_iff location).2 hmatch
  · rw [search_eq_idle h]
    exact ⟨rfl, rfl⟩
  · obtain ⟨read, rest, hcut, hreads, hcases⟩ := (ends_search hname hs exclude).reads_cases
    refine ⟨read, rest, hcut, hreads, ?_, hcases⟩
    have hread : source.readings (read.map Reading.file) s = read :=
      readings_map_file ⟨rest, hcut.symm⟩
    rw [state_search, hreads, hread]
  · exact source.reads_search_isPrefix name exclude s
  · rintro file rfl hmem
    exact source.not_mem_eligible file ((source.reads_search_isPrefix name _ s).subset hmem)

end Source

end YapAssist
