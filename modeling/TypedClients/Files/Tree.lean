import TypedClients.Files.Path
import TypedClients.Report.Failure

/-!
# Trees of files

A tree maps places to files, folders and links. Following a path through a tree meets links
and parent parts in the order in which they are written, as an operating system does;
`resolve` gives the place that a path means even where nothing is there.

* `get?_set`, `get?_removeBelow`: changing one place, or removing what lies below one, leaves
  all others.

Mirrors `clean_directory`. A file system is a list of entries. What the system refuses on its
own account, such as a folder that may not be written, is not told by the tree but by the
surroundings.
-/

namespace TypedClients.Files

/-- A place in a tree: the names of the folders on the way from the root, none of them a
parent part. -/
abbrev Place := List String

/-- What is at a place. -/
inductive Entry
  | file (bytes : List UInt8)
  | folder
  | link (target : Path)
  deriving DecidableEq, Repr

/-- A tree, by what is at each place but the root, which is a folder. -/
structure Tree where
  entries : List (Place × Entry)
  deriving DecidableEq, Repr

/-- A step of removing a folder with all that is in it. -/
inductive Removal
  | lookInto (folder : Place)
  | remove (place : Place)
  deriving DecidableEq, Repr

/-- The place that a step of a removal is about. -/
def Removal.place : Removal → Place
  | lookInto folder => folder
  | remove place => place

/-- The place where a path starts that is used in a folder. -/
def Path.start (p : Path) (folder : Place) : Place := if p.slashes = 0 then folder else []

/-- The path to a place from the root. -/
def Path.ofPlace (place : Place) : Path := ⟨1, place⟩

/-- The name by which a problem with a step is told: of the folder that is to be removed the
whole path, of what is below it the name alone. -/
def Removal.told (whole : Place) (step : Removal) : String :=
  if step.place = whole then (Path.ofPlace whole).text else step.place.getLast?.getD ""

namespace Tree

/-- What is at a place. -/
def get? (t : Tree) (place : Place) : Option Entry :=
  if place = [] then some .folder else t.entries.lookup place

/-- A tree with something put at a place. -/
def set (t : Tree) (place : Place) (e : Entry) : Tree :=
  ⟨(place, e) :: t.entries.filter (·.1 ≠ place)⟩

/-- A tree without what is at a place and below it. -/
def removeBelow (t : Tree) (place : Place) : Tree :=
  ⟨t.entries.filter fun e => !place.isPrefixOf e.1⟩

/-- A tree after a step of a removal. Nothing is left below a place when its turn comes. -/
def after (t : Tree) : Removal → Tree
  | .lookInto _ => t
  | .remove place => t.removeBelow place

/-- The names of what a folder holds. -/
def names (t : Tree) (place : Place) : List String :=
  (t.entries.filter fun e => e.1.dropLast = place).filterMap (·.1.getLast?)

/-- How many names there are on the longest way to anything. -/
def height (t : Tree) : Nat := t.entries.foldr (fun e n => max e.1.length n) 0

/-- The steps of removing what is at a place, in folders of so many levels: each folder is
looked into, what it holds is removed in the order in which the tree lists it, and then the
folder itself. -/
def removalsFrom (t : Tree) : Nat → Place → List Removal
  | 0, place => [.remove place]
  | levels + 1, place =>
    match t.get? place with
    | some .folder =>
      .lookInto place ::
        ((t.names place).flatMap fun name => t.removalsFrom levels (place ++ [name])) ++
          [.remove place]
    | _ => [.remove place]

/-- The steps of removing what is at a place. -/
def removals (t : Tree) (place : Place) : List Removal := t.removalsFrom t.height place

/-- How many links may be followed on one path. -/
def maxLinks : Nat := 40

/-- How many bytes a name may have. -/
def maxNameBytes : Nat := 255

/-- The place that some parts lead to from a folder, where `linked` goes on behind a link. The
last part may name nothing yet if `mayBeNew` is set. -/
def walk (t : Tree) (mayBeNew : Bool)
    (linked : Place → List String → Except SystemProblem Place) (here : Place) :
    List String → Except SystemProblem Place
  | [] => .ok here
  | name :: rest =>
    match t.get? here with
    | some .folder =>
      if name = ".." then walk t mayBeNew linked here.dropLast rest
      else if name.utf8ByteSize > maxNameBytes then .error .nameTooLong
      else match t.get? (here ++ [name]) with
        | some (.link target) => linked (target.start here) (target.parts ++ rest)
        | some _ => walk t mayBeNew linked (here ++ [name]) rest
        | none => if mayBeNew && rest.isEmpty then .ok (here ++ [name]) else .error .missing
    | some _ => .error .notADirectory
    | none => .error .missing

/-- The place that some parts lead to from a folder, with so many links followed. -/
def follow (t : Tree) (mayBeNew : Bool) : Nat → Place → List String → Except SystemProblem Place
  | 0 => t.walk mayBeNew fun _ _ => .error .tooManyLinks
  | links + 1 => t.walk mayBeNew (t.follow mayBeNew links)

/-- The place that a path leads to in a working folder. -/
def locate (t : Tree) (mayBeNew : Bool) (workFolder : Place) (p : Path) :
    Except SystemProblem Place :=
  t.follow mayBeNew maxLinks (p.start workFolder) p.parts

/-- What a path leads to. -/
def at? (t : Tree) (workFolder : Place) (p : Path) : Option Entry :=
  match t.locate false workFolder p with
  | .ok place => t.get? place
  | .error _ => none

/-- The place that some parts mean from a place, where `linked` goes on behind a link; without
it links are names like others. -/
def lead (t : Tree) (linked : Option (Place → List String → Place)) (here : Place) :
    List String → Place
  | [] => here
  | name :: rest =>
    if name = ".." then lead t linked here.dropLast rest
    else match t.get? (here ++ [name]) with
      | some (.link target) =>
        match linked with
        | some go => go (target.start here) (target.parts ++ rest)
        | none => lead t linked (here ++ [name]) rest
      | _ => lead t linked (here ++ [name]) rest

/-- The place that some parts mean from a place, with so many links followed. -/
def resolveFrom (t : Tree) : Nat → Place → List String → Place
  | 0 => t.lead none
  | links + 1 => t.lead (some (t.resolveFrom links))

/-- The place that a path means in a working folder, whether anything is there or not. -/
def resolve (t : Tree) (workFolder : Place) (p : Path) : Place :=
  t.resolveFrom maxLinks (p.start workFolder) p.parts

/-- A tree with one more folder. -/
def makeFolder (t : Tree) (workFolder : Place) (p : Path) : Except SystemProblem Tree :=
  match p.parts.getLast? with
  | none => .error .exists
  | some ".." => do
    let _ ← t.locate false workFolder p
    .error .exists
  | some name => do
    let holder ← t.locate false workFolder p.parent
    match t.get? holder with
    | some .folder =>
      if name.utf8ByteSize > maxNameBytes then .error .nameTooLong
      else if (t.get? (holder ++ [name])).isSome then .error .exists
      else .ok (t.set (holder ++ [name]) .folder)
    | some _ => .error .notADirectory
    | none => .error .missing

/-- A tree with a file that has the given content, new or not. -/
def writeFile (t : Tree) (workFolder : Place) (p : Path) (bytes : List UInt8) :
    Except SystemProblem Tree := do
  let place ← t.locate true workFolder p
  match t.get? place with
  | some .folder => .error .isADirectory
  | _ => .ok (t.set place (.file bytes))

/-! ## What a change leaves alone -/

theorem lookup_filter (keep : Place → Bool) (place : Place) (es : List (Place × Entry)) :
    (es.filter fun e => keep e.1).lookup place = if keep place then es.lookup place else none := by
  induction es with
  | nil => simp
  | cons e es ih =>
    obtain ⟨q, f⟩ := e
    by_cases hq : place = q
    · subst hq
      cases hk : keep place
      · rw [List.filter_cons_of_neg (by simp [hk]), ih, hk]
        simp
      · rw [List.filter_cons_of_pos (by simp [hk])]
        simp
    · have hb : (place == q) = false := by simpa using hq
      cases hk : keep q
      · rw [List.filter_cons_of_neg (by simp [hk]), ih]
        simp [List.lookup_cons, hb]
      · rw [List.filter_cons_of_pos (by simp [hk])]
        simp only [List.lookup_cons, hb, ih]

theorem get?_set (t : Tree) {place other : Place} (e : Entry) (h : place ≠ []) :
    (t.set place e).get? other = if other = place then some e else t.get? other := by
  unfold get? set
  by_cases ho : other = []
  · subst ho
    simp [Ne.symm h]
  · by_cases hp : other = place
    · simp [hp, h]
    · have hb : (other == place) = false := by simpa using hp
      simp only [ho, if_false, hp, List.lookup_cons, hb]
      rw [lookup_filter (fun q => decide (q ≠ place))]
      simp [hp]

theorem get?_removeBelow (t : Tree) {place other : Place} (h : other ≠ []) :
    (t.removeBelow place).get? other =
      if place.isPrefixOf other then none else t.get? other := by
  unfold get? removeBelow
  rw [lookup_filter (fun q => !place.isPrefixOf q)]
  cases hp : place.isPrefixOf other <;> simp [h]

end Tree

end TypedClients.Files
