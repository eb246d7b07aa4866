import YapAssist.Proofs.Workspace.Search
import YapAssist.Workspace.Lookup
import YapAssist.Workspace.Store

/-!
# Documentation and definition of a name agree

Looking up where a name is declared and looking up its documentation fall back from the text at
hand to the workspace separately, and the documentation looks the name up a second time in the text
that the search came back with.

* `Lookup.describeHit_of_search`, the second look finds the declaration that the search found;
* `Lookup.documentation_definition`, both lookups make the same readings and succeed together, and
  what is documented is the declaration that is located.
-/

namespace YapAssist

variable {σ : Type}

namespace Source

/-- A hit is at the first match of a trail, and carries the text that was read there. -/
theorem Ends.exists_of_some {source : Source σ} {name : Text} {trail : List (Reading σ)}
    {hit : Hit} {reads : List FileId} (h : Ends source name trail (some hit) reads) :
    ∃ before r after, trail = before ++ r :: after ∧ reads = (before ++ [r]).map Reading.file ∧
      r.file = hit.location.file ∧ r.answer = .ok hit.text ∧
      Declaration.find? hit.text name = some hit.location.position := by
  cases h with
  | @found before r after _ cut passed here live =>
    obtain ⟨hdeclares, hfile, hanswer⟩ := (Reading.hit?_answer_eq_some_iff name r hit).1 here
    rw [Reading.declares?, hanswer] at hdeclares
    exact ⟨before, r, after, cut, rfl, hfile, hanswer, hdeclares⟩

theorem exists_of_search_eq_some {source : Source σ} {name : Text} {exclude : Option FileId} {s : σ}
    {hit : Hit} (h : (source.search name exclude s).result = some hit) :
    ∃ before r after, source.trail exclude s = before ++ r :: after ∧
      (source.search name exclude s).reads = (before ++ [r]).map Reading.file ∧
      r.file = hit.location.file ∧ r.answer = .ok hit.text ∧
      Declaration.find? hit.text name = some hit.location.position := by
  by_cases hidle : isIdentifier name = false ∨ source.cancelled s = true
  · rw [search_eq_idle hidle] at h
    cases h
  · simp only [not_or, Bool.not_eq_false, Bool.not_eq_true] at hidle
    have hends := ends_search hidle.1 hidle.2 exclude
    rw [h] at hends
    exact hends.exists_of_some

end Source

namespace Lookup

/-- The second look at the text of a hit finds the declaration that the search found. -/
theorem describeHit_of_search {source : Source σ} {name : Text} {exclude : Option FileId} {s : σ}
    {hit : Hit} (h : (source.search name exclude s).result = some hit) :
    describeHit name hit = some (Documentation.describe hit.text name hit.location.position) := by
  obtain ⟨-, -, -, -, -, -, -, hfind⟩ := Source.exists_of_search_eq_some h
  rw [describeHit, hfind, Option.map_some]

/-- Every hit of a search has documentation. -/
theorem result_bind_describeHit (source : Source σ) (name : Text) (exclude : Option FileId)
    (s : σ) :
    ((source.search name exclude s).bind (describeHit name)).result =
      (source.search name exclude s).result.map fun hit =>
        Documentation.describe hit.text name hit.location.position := by
  show (source.search name exclude s).result.bind (describeHit name) = _
  cases h : (source.search name exclude s).result with
  | none => rfl
  | some hit => exact describeHit_of_search h

/-- The text in which a name that is looked up in the file `current` is found to be declared at
`location`: the text at hand, or else what the last of the readings gave. -/
inductive Origin (current : FileId) (text name : Text) (source : Option (Source σ)) (s : σ)
    (reads : List FileId) (location : Location) : Text → Prop
  | here (found : Declaration.find? text name = some location.position)
      (file : location.file = current) (idle : reads = []) :
      Origin current text name source s reads location text
  | elsewhere {workspace : Source σ} {before : List (Reading σ)} {r : Reading σ}
      {after : List (Reading σ)} {t : Text} (missing : Declaration.find? text name = none)
      (offered : source = some workspace)
      (cut : workspace.trail (some current) s = before ++ r :: after)
      (reads_eq : reads = (before ++ [r]).map Reading.file) (file : r.file = location.file)
      (apart : location.file ≠ current) (answer : r.answer = .ok t) :
      Origin current text name source s reads location t

/-- **Documentation and definition agree.** For a name that is not built in, documentation is found
exactly when a place is, with the same readings. It describes the declaration at that place, in the
text at hand when that declares the name and else in the text that was read for the place. -/
theorem documentation_definition (current : FileId) (text name stdModule : Text)
    (source : Option (Source σ)) (s : σ) (h : BuiltIn.find? name = none) :
    ((documentation text name stdModule (some current) source s).result.isSome =
      (definition current text name source s).result.isSome) ∧
    (documentation text name stdModule (some current) source s).reads =
      (definition current text name source s).reads ∧
    (documentation text name stdModule (some current) source s).state =
      (definition current text name source s).state ∧
    ∀ location, (definition current text name source s).result = some location →
      ∃ t, Origin current text name source s (definition current text name source s).reads
          location t ∧
        (documentation text name stdModule (some current) source s).result =
          some (Documentation.describe t name location.position) := by
  unfold documentation definition
  rw [h]
  cases hlocal : Declaration.find? text name with
  | some p =>
    refine ⟨rfl, rfl, rfl, fun location hlocation => ?_⟩
    obtain rfl : ⟨current, p⟩ = location := Option.some.inj hlocation
    exact ⟨text, .here hlocal rfl rfl, rfl⟩
  | none =>
    cases source with
    | none => exact ⟨rfl, rfl, rfl, fun location hlocation => by cases hlocation⟩
    | some workspace =>
      simp only [result_bind_describeHit, Source.result_locate, Source.reads_locate]
      refine ⟨by rw [Option.isSome_map, Option.isSome_map], rfl, rfl, fun location hlocation => ?_⟩
      obtain ⟨hit, hhit, rfl⟩ := Option.map_eq_some_iff.1 hlocation
      obtain ⟨before, r, after, cut, hreads, hfile, hanswer, -⟩ :=
        Source.exists_of_search_eq_some hhit
      have hmem : hit.location.file ∈ workspace.eligible (some current) := by
        rw [← workspace.map_file_trail (some current) s, cut, ← hfile]
        simp
      have hapart : hit.location.file ≠ current := by
        intro hcurrent
        rw [hcurrent] at hmem
        exact workspace.not_mem_eligible current hmem
      refine ⟨hit.text, .elsewhere hlocal rfl cut hreads hfile hapart hanswer, ?_⟩
      rw [hhit, Option.map_some]

/-- A declaration behind a file that cannot be read is located and documented. -/
theorem documentation_definition_locked :
    let host := ((Host.empty.insert ['b'] "fn f(y)".toList).insert ['c']
      "// Twice x.\nfn f(x)".toList).lock ['b']
    BuiltIn.find? ['f'] = none ∧
      (definition ['a'] [] ['f'] (some host.source) host).result = some ⟨['c'], ⟨1, 0⟩⟩ ∧
      ∃ t, Origin ['a'] [] ['f'] (some host.source) host [['b'], ['c']] ⟨['c'], ⟨1, 0⟩⟩ t ∧
        (documentation [] ['f'] ['m'] (some ['a']) (some host.source) host).result =
          some (Documentation.describe t ['f'] ⟨1, 0⟩) := by
  intro host
  have hname : BuiltIn.find? ['f'] = none := by decide +kernel
  have hplace : (definition ['a'] [] ['f'] (some host.source) host).result =
      some ⟨['c'], ⟨1, 0⟩⟩ := by decide +kernel
  exact ⟨hname, hplace,
    (documentation_definition ['a'] [] ['f'] ['m'] (some host.source) host hname).2.2.2 _ hplace⟩

end Lookup

end YapAssist
