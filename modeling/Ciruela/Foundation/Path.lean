import Mathlib.Data.List.DropRight
import Mathlib.Data.List.Infix

/-!
# Unix paths as text cut at separators

A path is kept as its text cut at every `/`, so that `Path.ofText` and
`Path.text` are mutually inverse and no spelling is lost: repeated and trailing
separators and `.` segments stay in the value. `Path.components` is the reading
of the text that ignores them, which is the one equality and lookup are defined
by in the standard library of the modelled language.

`Path.parent`, `Path.afterComponents`, `Path.stripPrefix` and `Path.join` return
text, exactly as the library functions return slices of the original text. Their
`components_*` lemmas say what each does to the reading.
-/

namespace Ciruela.Foundation

/-- A name a directory entry can carry. The fields exclude what no listing
returns and no lookup of one component can mean. -/
structure FileName where
  text : List Char
  nonempty : text ≠ []
  slashFree : '/' ∉ text
  notDot : text ≠ ['.']
  notDotDot : text ≠ ['.', '.']
deriving DecidableEq

namespace FileName

/-- File names are determined by their text. -/
@[ext] theorem ext {left right : FileName} (text : left.text = right.text) : left = right := by
  cases left
  cases right
  cases text
  rfl

/-- Text of three characters or more is a file name as soon as it has no
separator. -/
def ofLong (text : List Char) (long : 3 ≤ text.length) (slashFree : '/' ∉ text) : FileName where
  text := text
  nonempty := by rintro rfl; simp at long
  slashFree := slashFree
  notDot := by rintro rfl; simp at long
  notDotDot := by rintro rfl; simp at long

@[simp] theorem ofLong_text (text : List Char) (long : 3 ≤ text.length) (slashFree : '/' ∉ text) :
    (ofLong text long slashFree).text = text := rfl

end FileName

/-- One piece of text between two separators, read. -/
inductive Segment where
  | empty
  | dot
  | dotDot
  | name (file : FileName)
deriving DecidableEq

namespace Segment

/-- The text of a segment. -/
def text : Segment → List Char
  | .empty => []
  | .dot => ['.']
  | .dotDot => ['.', '.']
  | .name file => file.text

/-- Read one piece of text without separators. -/
def ofText (text : List Char) (slashFree : '/' ∉ text) : Segment :=
  if nonempty : text = [] then .empty
  else if notDot : text = ['.'] then .dot
  else if notDotDot : text = ['.', '.'] then .dotDot
  else .name ⟨text, nonempty, slashFree, notDot, notDotDot⟩

@[simp] theorem text_ofText (text : List Char) (slashFree : '/' ∉ text) :
    (ofText text slashFree).text = text := by
  unfold ofText
  split
  · simp [*, Segment.text]
  · split
    · simp [*, Segment.text]
    · split <;> simp [*, Segment.text]

/-- No segment has a slash in it. -/
theorem slash_notMem_text (segment : Segment) : '/' ∉ segment.text := by
  cases segment with
  | empty => simp [text]
  | dot => simp [text]
  | dotDot => simp [text]
  | name file => exact file.slashFree

@[simp] theorem ofText_text (segment : Segment) (slashFree : '/' ∉ segment.text) :
    ofText segment.text slashFree = segment := by
  cases segment with
  | empty => rfl
  | dot => rfl
  | dotDot => rfl
  | name file => simp [ofText, text, file.nonempty, file.notDot, file.notDotDot]

/-- Segments that contribute a component wherever they stand. -/
def significant : Segment → Bool
  | .empty | .dot => false
  | .dotDot | .name _ => true

end Segment

/-- One step of a path as the operating system takes it. -/
inductive Component where
  | rootDir
  | curDir
  | parentDir
  | normal (file : FileName)
deriving DecidableEq

namespace Component

/-- The text handed on when a component is used as a name. -/
def text : Component → List Char
  | .rootDir => ['/']
  | .curDir => ['.']
  | .parentDir => ['.', '.']
  | .normal file => file.text

/-- A component that is a name. -/
def isNormal : Component → Bool
  | .normal _ => true
  | _ => false

end Component

/-- The component a segment contributes away from the start of a path. -/
def Segment.component : Segment → Option Component
  | .empty | .dot => none
  | .dotDot => some .parentDir
  | .name file => some (.normal file)

/-- A path as the nonempty list of its segments. -/
structure Path where
  segments : List Segment
  nonempty : segments ≠ []
deriving DecidableEq

/-- The components of a run of segments away from the start of a path. -/
def body (segments : List Segment) : List Component := segments.filterMap Segment.component

/-- The segments from the first on that matters. -/
def trimLeft (segments : List Segment) : List Segment :=
  segments.dropWhile fun segment => !segment.significant

/-- The segments up to the last that matters. -/
def trimRight (segments : List Segment) : List Segment :=
  segments.rdropWhile fun segment => !segment.significant

/-- Drop the first `count` components of a run of segments. -/
def skip : Nat → List Segment → List Segment
  | 0, segments => segments
  | count + 1, segments => skip count ((trimLeft segments).drop 1)

section Body

@[simp] theorem body_nil : body [] = [] := rfl

@[simp] theorem body_append (left right : List Segment) :
    body (left ++ right) = body left ++ body right :=
  List.filterMap_append

theorem body_cons_of_not_significant {segment : Segment} (rest : List Segment)
    (insignificant : segment.significant = false) : body (segment :: rest) = body rest := by
  cases segment with
  | empty => rfl
  | dot => rfl
  | dotDot => simp [Segment.significant] at insignificant
  | name file => simp [Segment.significant] at insignificant

theorem body_cons_of_significant {segment : Segment} (rest : List Segment)
    (significant : segment.significant = true) :
    ∃ component, segment.component = some component ∧
      body (segment :: rest) = component :: body rest := by
  cases segment with
  | empty => simp [Segment.significant] at significant
  | dot => simp [Segment.significant] at significant
  | dotDot => exact ⟨_, rfl, rfl⟩
  | name file => exact ⟨_, rfl, rfl⟩

/-- A segment that matters makes a component. -/
theorem body_ne_nil_of_mem {segments : List Segment} {segment : Segment}
    (member : segment ∈ segments) (significant : segment.significant = true) :
    body segments ≠ [] := by
  obtain ⟨before, after, rfl⟩ := List.append_of_mem member
  obtain ⟨component, _, equation⟩ := body_cons_of_significant after significant
  simp [equation]

@[simp] theorem body_trimLeft (segments : List Segment) : body (trimLeft segments) = body segments := by
  induction segments with
  | nil => rfl
  | cons segment rest ih =>
      unfold trimLeft at ih ⊢
      cases significance : segment.significant with
      | true => simp [significance]
      | false =>
          rw [body_cons_of_not_significant rest significance]
          simpa [significance] using ih

@[simp] theorem body_trimRight (segments : List Segment) : body (trimRight segments) = body segments := by
  induction segments using List.reverseRecOn with
  | nil => rfl
  | append_singleton rest segment ih =>
      unfold trimRight at ih ⊢
      cases significance : segment.significant with
      | true => simp [List.rdropWhile_concat_neg, significance]
      | false =>
          have last : body [segment] = [] := body_cons_of_not_significant [] significance
          rw [List.rdropWhile_concat_pos _ _ _ (by simp [significance]), ih, body_append, last,
            List.append_nil]

/-- Only segments that do not matter are trimmed away as a whole. -/
theorem trimRight_eq_nil_iff {segments : List Segment} : trimRight segments = [] ↔ body segments = [] := by
  constructor
  · intro trimmed
    rw [← body_trimRight, trimmed]
    rfl
  · intro noBody
    rw [trimRight, List.rdropWhile_eq_nil_iff]
    intro segment member
    by_contra significant
    exact body_ne_nil_of_mem member (by simpa using significant) noBody

/-- The last segment left by `trimRight` contributes the last component. -/
theorem body_dropLast_trimRight (segments : List Segment) :
    body (trimRight segments).dropLast = (body segments).dropLast := by
  by_cases noBody : body segments = []
  · simp [trimRight_eq_nil_iff.mpr noBody, noBody]
  · have kept : trimRight segments ≠ [] := fun trimmed => noBody (trimRight_eq_nil_iff.mp trimmed)
    have significant : ((trimRight segments).getLast kept).significant = true := by
      have last := List.rdropWhile_last_not (fun segment : Segment => !segment.significant) segments kept
      rw [Bool.not_eq_true, Bool.not_eq_false'] at last
      exact last
    obtain ⟨component, _, last⟩ := body_cons_of_significant [] significant
    have whole : body segments = body (trimRight segments).dropLast ++ [component] := by
      calc body segments = body (trimRight segments) := (body_trimRight segments).symm
        _ = body ((trimRight segments).dropLast ++ [(trimRight segments).getLast kept]) := by
            rw [List.dropLast_append_getLast]
        _ = body (trimRight segments).dropLast ++ [component] := by rw [body_append, last]; rfl
    rw [whole, List.dropLast_concat]

/-- The first component goes with the first segment that matters. -/
theorem body_drop_trimLeft (segments : List Segment) :
    body ((trimLeft segments).drop 1) = (body segments).drop 1 := by
  induction segments with
  | nil => rfl
  | cons segment rest ih =>
      unfold trimLeft at ih ⊢
      cases significance : segment.significant with
      | true =>
          obtain ⟨component, _, equation⟩ := body_cons_of_significant rest significance
          simp [significance, equation]
      | false =>
          rw [body_cons_of_not_significant rest significance]
          simpa [significance] using ih

@[simp] theorem body_skip (count : Nat) (segments : List Segment) :
    body (skip count segments) = (body segments).drop count := by
  induction count generalizing segments with
  | zero => simp [skip]
  | succ count ih => rw [skip, ih, body_drop_trimLeft, List.drop_drop, Nat.add_comm]

/-- Away from the start of a path every component goes up or down. -/
theorem mem_body {segments : List Segment} {component : Component}
    (member : component ∈ body segments) :
    component = .parentDir ∨ ∃ file, component = .normal file := by
  obtain ⟨segment, _, read⟩ := List.mem_filterMap.mp member
  cases segment <;> simp [Segment.component] at read <;> simp [← read]

end Body

namespace Path

/-- The three ways a path can start. -/
inductive Shape where
  | rooted (rest : List Segment)
  | dotted (rest : List Segment)
  | plain (segments : List Segment)

/-- What a path begins with. -/
def shape (path : Path) : Shape :=
  match path.segments with
  | .empty :: second :: rest => .rooted (second :: rest)
  | .dot :: rest => .dotted rest
  | segments => .plain segments

/-- Segments as a path; no segment at all is the empty text. -/
def ofSegments : List Segment → Path
  | [] => ⟨[.empty], by simp⟩
  | segment :: rest => ⟨segment :: rest, by simp⟩

/-- The absolute path whose text after the leading separator is given. -/
def ofRooted : List Segment → Path
  | [] => ⟨[.empty, .empty], by simp⟩
  | segment :: rest => ⟨.empty :: segment :: rest, by simp⟩

/-- The text of a path. -/
def text (path : Path) : List Char := ['/'].intercalate (path.segments.map Segment.text)

private theorem slash_notMem_of_mem_splitOn {text part : List Char}
    (member : part ∈ text.splitOn '/') : '/' ∉ part := by
  induction text generalizing part with
  | nil => simp_all
  | cons char rest ih =>
      rw [List.splitOn_cons_eq_if_modifyHead] at member
      split at member
      · rcases List.mem_cons.mp member with rfl | later
        · simp
        · exact ih later
      · rename_i different
        cases split : rest.splitOn '/' with
        | nil => exact absurd split (List.splitOn_ne_nil _ _)
        | cons first others =>
            rw [split, List.modifyHead_cons] at member
            rcases List.mem_cons.mp member with rfl | later
            · have noSlash : '/' ∉ first := ih (by simp [split])
              simp only [List.mem_cons, not_or]
              exact ⟨fun equal => different (by simp [← equal]), noSlash⟩
            · exact ih (by simp [split, later])

/-- Read text as a path. -/
def ofText (text : List Char) : Path where
  segments := (text.splitOn '/').pmap Segment.ofText fun _ => slash_notMem_of_mem_splitOn
  nonempty := by simp [List.splitOn_ne_nil]

/-- Reading loses nothing of the text. -/
@[simp] theorem text_ofText (chars : List Char) : (ofText chars).text = chars := by
  have texts : ((chars.splitOn '/').pmap Segment.ofText
      fun _ => slash_notMem_of_mem_splitOn).map Segment.text = chars.splitOn '/' := by
    rw [List.map_pmap]
    simp
  rw [text, ofText, texts, List.intercalate_splitOn]

/-- Every path is the reading of its text, so paths and texts are the same
domain. -/
@[simp] theorem ofText_text (path : Path) : ofText path.text = path := by
  have split : path.text.splitOn '/' = path.segments.map Segment.text := by
    refine List.splitOn_intercalate '/' ?_ (by simpa using path.nonempty)
    intro part member
    obtain ⟨segment, _, rfl⟩ := List.mem_map.mp member
    exact segment.slash_notMem_text
  obtain ⟨segments, nonempty⟩ := path
  simp only [ofText, Path.mk.injEq]
  simp only at split
  simp [split, List.pmap_map]

/-- `Path::components`. -/
def components (path : Path) : List Component :=
  match path.shape with
  | .rooted rest => .rootDir :: body rest
  | .dotted rest => .curDir :: body rest
  | .plain segments => body segments

/-- `Path::is_absolute`. -/
def isAbsolute (path : Path) : Bool :=
  match path.shape with
  | .rooted _ => true
  | _ => false

/-- The last component, when it is a name. -/
def fileName (path : Path) : Option FileName :=
  match path.components.getLast? with
  | some (.normal file) => some file
  | _ => none

/-- The path without its last component, as the library cuts it: separators and
`.` segments before the removed component go with it. -/
def parent (path : Path) : Option Path :=
  match path.shape with
  | .rooted rest =>
      if trimRight rest = [] then none
      else some (ofRooted (trimRight (trimRight rest).dropLast))
  | .dotted rest =>
      if trimRight rest = [] then some (ofSegments [])
      else some (ofSegments (.dot :: trimRight (trimRight rest).dropLast))
  | .plain segments =>
      if trimRight segments = [] then none
      else some (ofSegments (trimRight (trimRight segments).dropLast))

/-- What is left of the text once an iterator over the components has handed out
`count` of them. -/
def afterComponents (path : Path) (count : Nat) : Path :=
  match path.shape, count with
  | .rooted rest, 0 => ofRooted (trimRight rest)
  | .rooted rest, count + 1 => ofSegments (trimRight (trimLeft (skip count rest)))
  | .dotted rest, 0 => ofSegments (.dot :: trimRight rest)
  | .dotted rest, count + 1 => ofSegments (trimRight (trimLeft (skip count rest)))
  | .plain segments, 0 => ofSegments (trimRight segments)
  | .plain segments, count + 1 => ofSegments (trimRight (trimLeft (skip (count + 1) segments)))

/-- `Path::strip_prefix`. -/
def stripPrefix (path base : Path) : Option Path :=
  if base.components.isPrefixOf path.components then
    some (path.afterComponents base.components.length)
  else none

/-- Put `other` after `path`. An absolute `other` replaces `path`; a separator is
added unless `path` is empty or already ends in one. -/
def join (path other : Path) : Path :=
  if other.isAbsolute then other
  else if path.segments = [.empty] then other
  else if path.segments.getLast path.nonempty = .empty then
    ⟨path.segments.dropLast ++ other.segments, by simp [other.nonempty]⟩
  else ⟨path.segments ++ other.segments, by simp [other.nonempty]⟩

/-- Segments that start with a component, or no segments, keep their reading when
they become a whole path. -/
theorem components_ofSegments {segments : List Segment}
    (starts : ∀ first ∈ segments.head?, first.significant = true) :
    (ofSegments segments).components = body segments := by
  cases segments with
  | nil => rfl
  | cons first rest =>
      have significant : first.significant = true := starts first (by simp)
      cases first with
      | empty => simp [Segment.significant] at significant
      | dot => simp [Segment.significant] at significant
      | dotDot => rfl
      | name file => rfl

@[simp] theorem components_ofSegments_dot (rest : List Segment) :
    (ofSegments (.dot :: rest)).components = .curDir :: body rest := rfl

@[simp] theorem components_ofRooted (rest : List Segment) :
    (ofRooted rest).components = .rootDir :: body rest := by
  cases rest <;> rfl

@[simp] theorem isAbsolute_ofRooted (rest : List Segment) : (ofRooted rest).isAbsolute = true := by
  cases rest <;> rfl

/-- A path that starts neither at the root nor with `.` starts with a component
or is empty. -/
theorem plain_starts {path : Path} {segments : List Segment} (plain : path.shape = .plain segments)
    (nonempty : body segments ≠ []) : ∀ first ∈ segments.head?, first.significant = true := by
  obtain ⟨all, allNonempty⟩ := path
  unfold shape at plain
  split at plain
  · simp at plain
  · simp at plain
  · rename_i notRooted notDotted
    simp only [Shape.plain.injEq] at plain
    subst plain
    intro first isFirst
    cases all with
    | nil => simp at isFirst
    | cons head rest =>
        obtain rfl : head = first := by simpa using isFirst
        cases head with
        | empty =>
            cases rest with
            | nil => simp [body, Segment.component] at nonempty
            | cons second rest => exact absurd rfl (notRooted second rest)
        | dot => exact absurd rfl (notDotted rest)
        | dotDot => rfl
        | name file => rfl

/-- A nonempty front part starts where the whole starts. -/
theorem starts_of_front {front segments : List Segment} (isPrefix : front <+: segments)
    (starts : ∀ first ∈ segments.head?, first.significant = true) :
    ∀ first ∈ front.head?, first.significant = true := by
  obtain ⟨rest, rfl⟩ := isPrefix
  intro first isFirst
  refine starts first ?_
  cases front with
  | nil => simp at isFirst
  | cons head tail => simpa using isFirst

/-- Dropping insignificant segments on the left leaves nothing or a component in
front. -/
theorem starts_trimLeft (segments : List Segment) :
    ∀ first ∈ (trimLeft segments).head?, first.significant = true := by
  intro first isFirst
  have found := List.head?_dropWhile_not (fun segment : Segment => !segment.significant) segments
  rw [trimLeft] at isFirst
  rw [Option.mem_def.mp isFirst] at found
  simpa using found

/-- The components of a path that begins with a slash. -/
theorem components_of_rooted {path : Path} {rest : List Segment} (form : path.shape = .rooted rest) :
    path.components = .rootDir :: body rest := by
  simp [components, form]

/-- The components of a path that begins with a dot. -/
theorem components_of_dotted {path : Path} {rest : List Segment} (form : path.shape = .dotted rest) :
    path.components = .curDir :: body rest := by
  simp [components, form]

/-- The components of any other path. -/
theorem components_of_plain {path : Path} {segments : List Segment}
    (form : path.shape = .plain segments) : path.components = body segments := by
  simp [components, form]

/-- `parent` removes exactly the last component. -/
theorem components_parent {path upper : Path} (found : path.parent = some upper) :
    upper.components = path.components.dropLast := by
  cases form : path.shape with
  | rooted rest =>
      simp only [parent, form] at found
      split at found
      · simp at found
      · rename_i kept
        have nonempty : body rest ≠ [] := fun noBody => kept (trimRight_eq_nil_iff.mpr noBody)
        rw [← Option.some.inj found, components_of_rooted form, components_ofRooted,
          body_trimRight, body_dropLast_trimRight, List.dropLast_cons_of_ne_nil nonempty]
  | dotted rest =>
      simp only [parent, form] at found
      split at found
      · rename_i trimmed
        rw [← Option.some.inj found, components_of_dotted form, trimRight_eq_nil_iff.mp trimmed]
        rfl
      · rename_i kept
        have nonempty : body rest ≠ [] := fun noBody => kept (trimRight_eq_nil_iff.mpr noBody)
        rw [← Option.some.inj found, components_of_dotted form, components_ofSegments_dot,
          body_trimRight, body_dropLast_trimRight, List.dropLast_cons_of_ne_nil nonempty]
  | plain segments =>
      simp only [parent, form] at found
      split at found
      · simp at found
      · rename_i kept
        have nonempty : body segments ≠ [] := fun noBody => kept (trimRight_eq_nil_iff.mpr noBody)
        have isPrefix : trimRight (trimRight segments).dropLast <+: segments :=
          (List.rdropWhile_prefix _ _).trans
            ((List.dropLast_prefix _).trans (List.rdropWhile_prefix _ _))
        rw [← Option.some.inj found, components_of_plain form,
          components_ofSegments (starts_of_front isPrefix (plain_starts form nonempty)),
          body_trimRight, body_dropLast_trimRight]

/-- An absolute path with a component below the root has a parent, and the parent
is absolute. -/
theorem parent_of_isAbsolute {path : Path} (absolute : path.isAbsolute = true)
    (deep : 2 ≤ path.components.length) :
    ∃ upper, path.parent = some upper ∧ upper.isAbsolute = true := by
  cases form : path.shape with
  | rooted rest =>
      have kept : trimRight rest ≠ [] := by
        intro trimmed
        rw [components_of_rooted form, trimRight_eq_nil_iff.mp trimmed] at deep
        simp at deep
      refine ⟨ofRooted (trimRight (trimRight rest).dropLast), ?_, isAbsolute_ofRooted _⟩
      simp [parent, form, kept]
  | dotted rest => simp [isAbsolute, form] at absolute
  | plain segments => simp [isAbsolute, form] at absolute

/-- A relative path with a component has a parent. -/
theorem parent_isSome_of_components {path : Path} (relative : path.isAbsolute = false)
    (nonempty : path.components ≠ []) : path.parent.isSome := by
  cases form : path.shape with
  | rooted rest => simp [isAbsolute, form] at relative
  | dotted rest => by_cases trimmed : trimRight rest = [] <;> simp [parent, form, trimmed]
  | plain segments =>
      rw [components_of_plain form] at nonempty
      have kept : trimRight segments ≠ [] := fun trimmed => nonempty (trimRight_eq_nil_iff.mp trimmed)
      simp [parent, form, kept]

/-- Text trimmed on both sides keeps its reading as a whole path. -/
theorem components_ofSegments_trim (segments : List Segment) :
    (ofSegments (trimRight (trimLeft segments))).components = body segments := by
  have isPrefix : trimRight (trimLeft segments) <+: trimLeft segments := List.rdropWhile_prefix _ _
  rw [components_ofSegments (starts_of_front isPrefix (starts_trimLeft segments)), body_trimRight,
    body_trimLeft]

/-- Handing out components drops them from the reading. -/
theorem components_afterComponents (path : Path) (count : Nat) :
    (path.afterComponents count).components = path.components.drop count := by
  cases form : path.shape with
  | rooted rest =>
      rw [components_of_rooted form]
      cases count with
      | zero => simp [afterComponents, form]
      | succ count => simp [afterComponents, form, components_ofSegments_trim]
  | dotted rest =>
      rw [components_of_dotted form]
      cases count with
      | zero => simp [afterComponents, form]
      | succ count => simp [afterComponents, form, components_ofSegments_trim]
  | plain segments =>
      rw [components_of_plain form]
      cases count with
      | zero =>
          simp only [afterComponents, form, List.drop_zero]
          by_cases noBody : body segments = []
          · rw [trimRight_eq_nil_iff.mpr noBody, noBody]
            rfl
          · have isPrefix : trimRight segments <+: segments := List.rdropWhile_prefix _ _
            rw [components_ofSegments (starts_of_front isPrefix (plain_starts form noBody)),
              body_trimRight]
      | succ count => simp [afterComponents, form, components_ofSegments_trim]

/-- The components of the front part of a path that goes on after it. -/
private def reading : List Segment → List Component
  | .empty :: rest => .rootDir :: body rest
  | .dot :: rest => .curDir :: body rest
  | segments => body segments

private theorem components_append {front rest : List Segment} (front_ne : front ≠ [])
    (rest_ne : rest ≠ []) (nonempty : front ++ rest ≠ []) :
    (Path.mk (front ++ rest) nonempty).components = reading front ++ body rest := by
  cases front with
  | nil => exact absurd rfl front_ne
  | cons first others =>
      cases first with
      | empty =>
          cases others with
          | nil =>
              cases rest with
              | nil => exact absurd rfl rest_ne
              | cons second rest => rfl
          | cons second others => simp [components, shape, reading, ← body_append]
      | dot => simp [components, shape, reading]
      | dotDot => simp [components, shape, reading, ← body_append]
      | name file => simp [components, shape, reading, ← body_append]

private theorem reading_segments {path : Path} (notEmpty : path.segments ≠ [.empty]) :
    reading path.segments = path.components := by
  obtain ⟨segments, nonempty⟩ := path
  cases segments with
  | nil => exact absurd rfl nonempty
  | cons first others =>
      cases first with
      | empty =>
          cases others with
          | nil => exact absurd rfl notEmpty
          | cons second others => rfl
      | dot => rfl
      | dotDot => rfl
      | name file => rfl

private theorem reading_dropLast {segments : List Segment} (nonempty : segments ≠ [])
    (notEmpty : segments ≠ [.empty]) (last : segments.getLast nonempty = .empty) :
    segments.dropLast ≠ [] ∧ reading segments.dropLast = reading segments := by
  obtain ⟨front, rfl⟩ : ∃ front, segments = front ++ [.empty] :=
    ⟨segments.dropLast, by rw [← last, List.dropLast_append_getLast]⟩
  rw [List.dropLast_concat]
  cases front with
  | nil => exact absurd rfl notEmpty
  | cons first others =>
      have trailing : body (others ++ [.empty]) = body others := by simp [body, Segment.component]
      refine ⟨by simp, ?_⟩
      cases first with
      | empty => simp [reading, trailing]
      | dot => simp [reading, trailing]
      | dotDot => simp [reading, body, Segment.component]
      | name file => simp [reading, body, Segment.component]

/-- Joining a relative path that does not start with `.` appends its components. -/
theorem components_join {path other : Path} {segments : List Segment}
    (plain : other.shape = .plain segments) :
    (path.join other).components = path.components ++ other.components := by
  have same : other.segments = segments := by
    unfold shape at plain
    split at plain <;> simp_all
  have relative : other.isAbsolute = false := by simp [isAbsolute, plain]
  rw [components_of_plain plain, ← same]
  unfold join
  rw [if_neg (by simp [relative])]
  split
  · rename_i empty
    have noComponents : path.components = [] := by simp [components, shape, empty, body, Segment.component]
    rw [noComponents, components_of_plain plain, same]
    rfl
  · rename_i notEmpty
    split
    · rename_i last
      obtain ⟨front_ne, kept⟩ := reading_dropLast path.nonempty notEmpty last
      rw [components_append front_ne other.nonempty, kept, reading_segments notEmpty]
    · rw [components_append path.nonempty other.nonempty, reading_segments notEmpty]

/-- A path is absolute exactly when its first component is the root. -/
theorem isAbsolute_iff_head? {path : Path} :
    path.isAbsolute = true ↔ path.components.head? = some .rootDir := by
  cases form : path.shape with
  | rooted rest => simp [isAbsolute, form, components_of_rooted form]
  | dotted rest => simp [isAbsolute, form, components_of_dotted form]
  | plain segments =>
      rw [components_of_plain form]
      simp only [isAbsolute, form, Bool.false_eq_true, false_iff]
      intro starts
      rcases mem_body (List.mem_of_mem_head? starts) with up | ⟨file, down⟩
      · simp at up
      · simp at down

/-- Below the root of an absolute path every component goes up or down. -/
theorem components_of_isAbsolute {path : Path} (absolute : path.isAbsolute = true) :
    ∃ rest, path.components = .rootDir :: rest ∧
      ∀ component ∈ rest, component = .parentDir ∨ ∃ file, component = .normal file := by
  cases form : path.shape with
  | rooted rest => exact ⟨body rest, components_of_rooted form, fun _ => mem_body⟩
  | dotted rest => simp [isAbsolute, form] at absolute
  | plain segments => simp [isAbsolute, form] at absolute

/-- The text of a path holds a separator exactly when it has two segments. -/
theorem slash_mem_text_iff (path : Path) : '/' ∈ path.text ↔ 2 ≤ path.segments.length := by
  obtain ⟨segments, nonempty⟩ := path
  cases segments with
  | nil => exact absurd rfl nonempty
  | cons first rest =>
      cases rest with
      | nil => simpa [text] using first.slash_notMem_text
      | cons second rest => simp [text, List.intercalate]

/-- Segments trimmed on the right that start with a component are two exactly when
their components are. -/
theorem two_le_length_trimRight {segments : List Segment}
    (starts : body segments ≠ [] → ∀ first ∈ segments.head?, first.significant = true) :
    2 ≤ (ofSegments (trimRight segments)).segments.length ↔ 2 ≤ (body segments).length := by
  by_cases noBody : body segments = []
  · rw [trimRight_eq_nil_iff.mpr noBody, noBody]
    simp [ofSegments]
  · have kept : trimRight segments ≠ [] := fun trimmed => noBody (trimRight_eq_nil_iff.mp trimmed)
    have last := List.rdropWhile_last_not (fun segment : Segment => !segment.significant) segments kept
    have isPrefix : trimRight segments <+: segments := List.rdropWhile_prefix _ _
    have front := starts_of_front isPrefix (starts noBody)
    rw [← body_trimRight segments]
    change ¬ (!((trimRight segments).getLast kept).significant) = true at last
    generalize trimRight segments = trimmed at kept last front isPrefix ⊢
    cases trimmed with
    | nil => exact absurd rfl kept
    | cons first rest =>
        obtain ⟨component, _, reading⟩ := body_cons_of_significant rest (front first rfl)
        rw [reading, ofSegments]
        cases rest with
        | nil => simp
        | cons second others =>
            have more : body (second :: others) ≠ [] := by
              refine body_ne_nil_of_mem (List.getLast_mem (by simp)) ?_
              rw [List.getLast_cons (by simp)] at last
              simpa using last
            have positive := List.length_pos_iff.mpr more
            simp only [List.length_cons]
            omega

/-- What is left of a relative path holds a separator exactly when two components
are left. -/
theorem slash_mem_text_afterComponents {path : Path} (relative : path.isAbsolute = false)
    (count : Nat) :
    '/' ∈ (path.afterComponents count).text ↔ 2 ≤ (path.afterComponents count).components.length := by
  rw [slash_mem_text_iff]
  have trimmed (segments : List Segment) :
      2 ≤ (ofSegments (trimRight (trimLeft segments))).segments.length ↔
        2 ≤ (ofSegments (trimRight (trimLeft segments))).components.length := by
    rw [components_ofSegments_trim, two_le_length_trimRight fun _ => starts_trimLeft segments,
      body_trimLeft]
  cases form : path.shape with
  | rooted rest => simp [isAbsolute, form] at relative
  | dotted rest =>
      cases count with
      | succ count => simpa [afterComponents, form] using trimmed (skip count rest)
      | zero =>
          have empty : (trimRight rest).length = 0 ↔ (body rest).length = 0 := by
            rw [List.length_eq_zero_iff, List.length_eq_zero_iff]
            exact trimRight_eq_nil_iff
          simp only [afterComponents, form, ofSegments, List.length_cons]
          have reading := components_ofSegments_dot (trimRight rest)
          rw [ofSegments] at reading
          rw [reading, List.length_cons, body_trimRight]
          omega
  | plain segments =>
      cases count with
      | succ count => simpa [afterComponents, form] using trimmed (skip (count + 1) segments)
      | zero =>
          have reading := components_afterComponents path 0
          simp only [afterComponents, form, List.drop_zero] at reading ⊢
          rw [reading, components_of_plain form]
          exact two_le_length_trimRight (plain_starts form)

/-- The text of an absolute path starts with a separator. -/
theorem head?_text_of_isAbsolute {path : Path} (absolute : path.isAbsolute = true) :
    path.text.head? = some '/' := by
  obtain ⟨segments, nonempty⟩ := path
  unfold isAbsolute shape at absolute
  split at absolute
  · rename_i rest rooted
    split at rooted
    · rename_i second others whole
      simp only at whole
      simp [text, whole, Segment.text, List.intercalate]
    · simp at rooted
    · simp at rooted
  · simp at absolute

/-- A path read from text without a separator in it is that one segment. -/
theorem segments_ofText {chars : List Char} (slashFree : '/' ∉ chars) :
    (ofText chars).segments = [Segment.ofText chars slashFree] := by
  have split : chars.splitOn '/' = [chars] := List.splitOn_eq_singleton slashFree
  simp [ofText, split]

/-- A file name read as a path is one component. -/
theorem shape_ofText_fileName (file : FileName) : (ofText file.text).shape = .plain [.name file] := by
  have segment : Segment.ofText file.text file.slashFree = .name file :=
    Segment.ofText_text (.name file) file.slashFree
  simp [shape, segments_ofText file.slashFree, segment]

@[simp] theorem components_ofText_fileName (file : FileName) :
    (ofText file.text).components = [.normal file] := by
  rw [components_of_plain (shape_ofText_fileName file)]
  rfl

/-- Joining a file name appends it. -/
theorem components_join_fileName (path : Path) (file : FileName) :
    (path.join (ofText file.text)).components = path.components ++ [.normal file] := by
  rw [components_join (shape_ofText_fileName file), components_ofText_fileName]

/-- A file name after the root. -/
theorem components_ofText_slash (file : FileName) :
    (ofText ('/' :: file.text)).components = [.rootDir, .normal file] := by
  have read := ofText_text ⟨[.empty, .name file], by simp⟩
  have text : (Path.mk [.empty, .name file] (by simp)).text = '/' :: file.text := by
    simp [text, Segment.text, List.intercalate]
  rw [← text, read]
  rfl

/-- The last component is a name exactly when `fileName` returns it. -/
theorem fileName_eq_some_iff {path : Path} {file : FileName} :
    path.fileName = some file ↔ path.components.getLast? = some (.normal file) := by
  unfold fileName
  split <;> simp_all

end Path

/-- Opening one component from a directory, both given by the names from the root,
as `openat` does without symbolic links. -/
def Component.enter (location : List FileName) : Component → List FileName
  | rootDir => []
  | curDir => location
  | parentDir => location.dropLast
  | normal file => location ++ [file]

/-- Opening the components one after another. -/
def walk (location : List FileName) (components : List Component) : List FileName :=
  components.foldl Component.enter location

/-- Walking along some components is walking along their parts, one after the other. -/
theorem walk_append (location : List FileName) (front back : List Component) :
    walk location (front ++ back) = walk (walk location front) back :=
  List.foldl_append

@[simp] theorem walk_names (location names : List FileName) :
    walk location (names.map .normal) = location ++ names := by
  induction names generalizing location with
  | nil => simp [walk]
  | cons first rest ih =>
      have later := ih (location ++ [first])
      rw [List.append_assoc] at later
      exact later

end Ciruela.Foundation
