import YapAssist.Text.Bytes

/-!
# Paths

A path is a string of bytes: segments between slashes. Empty segments and `.` mean nothing, except
that a path may begin with `.`; `..` is a segment like any other as long as the path is not followed
on a disk.

* `Path.join`, a path continued by another;
* `Path.parent?` and `Path.ancestors`, a path without its last segments;
* `Path.extension?`, the extension of the last segment;
* `Path.display`, the text that a path is shown as.
-/

namespace YapAssist.Path

/-- The byte between two segments. -/
def slash : UInt8 := 0x2F

/-- The byte before an extension, and the first one of a hidden name. -/
def dot : UInt8 := 0x2E

/-- The segments of a path between its slashes, empty ones included. -/
def segments (path : Bytes) : List Bytes := Text.cutAtEach slash path

/-- Whether a path starts at the root of the disk. -/
def isAbsolute (path : Bytes) : Bool := path.head? == some slash

/-- The path `path` continued from `base`; an absolute path stays as it is. -/
def join (base path : Bytes) : Bytes :=
  if isAbsolute path then path
  else if base.isEmpty || base.getLast? == some slash then base ++ path
  else base ++ slash :: path

/-- A reversed path without the slashes and the `.` segments it ends with. -/
def dropIdle : (reversed : Bytes) → Bytes
  | [] => []
  | c :: rest =>
    if c = slash then dropIdle rest
    else if c = dot ∧ rest.head? = some slash then dropIdle rest
    else c :: rest

/-- A path without its last segment; `none` for the root and for the empty path. -/
def parent? (path : Bytes) : Option Bytes :=
  match dropIdle path.reverse with
  | [] => none
  | c :: rest =>
    match dropIdle ((c :: rest).dropWhile (· != slash)) with
    | [] => some (if isAbsolute path then [slash] else [])
    | kept => some kept.reverse

theorem length_dropIdle_le (t : Bytes) : (dropIdle t).length ≤ t.length := by
  fun_induction dropIdle t with
  | case1 => exact Nat.le_refl _
  | case2 rest ih => exact Nat.le_succ_of_le ih
  | case3 c rest _ _ ih => exact Nat.le_succ_of_le ih
  | case4 => exact Nat.le_refl _

theorem head?_dropIdle_ne (t : Bytes) : (dropIdle t).head? ≠ some slash := by
  fun_induction dropIdle t with
  | case1 => simp
  | case2 rest ih => exact ih
  | case3 c rest _ _ ih => exact ih
  | case4 c rest hc => simpa using hc

/-- A parent is a shorter path. -/
theorem length_lt_of_parent? {path parent : Bytes} (h : parent? path = some parent) :
    parent.length < path.length := by
  have whole := length_dropIdle_le path.reverse
  have head := head?_dropIdle_ne path.reverse
  rw [List.length_reverse] at whole
  rw [parent?] at h
  split at h
  · simp at h
  · next c rest hc =>
    rw [hc] at whole head
    have visible : (c != slash) = true := by
      simpa using fun hc => head (congrArg some hc)
    rw [List.dropWhile_cons, if_pos visible] at h
    have cut := length_dropIdle_le (rest.dropWhile (· != slash))
    have shorter : (rest.dropWhile (· != slash)).length ≤ rest.length :=
      (List.dropWhile_sublist _).length_le
    simp only [List.length_cons] at whole
    split at h
    · obtain rfl := Option.some.inj h
      split
      · next absolute =>
        -- the root alone has no last segment
        cases path with
        | nil => simp [isAbsolute] at absolute
        | cons d path =>
          cases path with
          | nil =>
            simp only [isAbsolute, List.head?_cons, beq_iff_eq, Option.some.injEq] at absolute
            subst absolute
            simp [dropIdle] at hc
          | cons => simp
      · simp only [List.length_nil]
        omega
    · next kept =>
      obtain rfl := Option.some.inj h
      rw [List.length_reverse]
      omega

/-- A path, its parent, the parent of that, and so on. -/
def ancestors (path : Bytes) : List Bytes :=
  match _h : parent? path with
  | none => [path]
  | some parent => path :: ancestors parent
termination_by path.length
decreasing_by exact length_lt_of_parent? _h

/-- The segments of a path that mean something: neither empty nor `.`. -/
def names (path : Bytes) : List Bytes :=
  (segments path).filter fun s => !s.isEmpty && s != [dot]

/-- The name of the file that a path ends with; `none` when it ends with `..`. -/
def fileName? (path : Bytes) : Option Bytes :=
  (names path).getLast?.filter (· != [dot, dot])

/-- The extension of a path: what follows the last dot of its file name, unless that dot is the
first character. -/
def extension? (path : Bytes) : Option Bytes :=
  (fileName? path).bind fun name =>
    (Text.cutAtLast? dot name).bind fun cut => if cut.1.isEmpty then none else some cut.2

/-- The absolute path with the given names. -/
def ofNames (names : List Bytes) : Bytes := slash :: Text.joinWith [slash] names

/-- The names of `path` behind those of `base`. -/
def namesBehind? (base path : List Bytes) : Option (List Bytes) :=
  if base.isPrefixOf path then some (path.drop base.length) else none

/-- A path as it is shown: relative to the current directory when it lies at or below it. -/
def display (currentDir path : Bytes) : Text :=
  Text.lossy <|
    if isAbsolute path then
      match namesBehind? (names currentDir) (names path) with
      | some behind => Text.joinWith [slash] behind
      | none => path
    else path

end YapAssist.Path
