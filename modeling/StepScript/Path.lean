import StepScript.Text.Search

/-!
Slash-separated paths. A path keeps the text it was written with; its parts ignore empty pieces and
every `.` but a leading one, so `a//b/.` has the parts of `a/b`. Paths are ordered part by part.
-/

set_option autoImplicit false
set_option relaxedAutoImplicit false

namespace StepScript

/-- A path as it was written. -/
structure Path where
  text : String
  deriving DecidableEq, Repr, Inhabited

namespace Path

/-- One part of a path. -/
inductive Part
  /-- The slash that an absolute path starts with. -/
  | root
  | here
  | up
  | name (text : String)
  deriving DecidableEq, Repr

/-- Parts ascend in this order: the root, a leading `.`, a `..`, names; names by their text. -/
def Part.rank : Part → Nat × String
  | .root => (0, "")
  | .here => (1, "")
  | .up => (2, "")
  | .name text => (3, text)

def Part.before (a b : Part) : Bool :=
  a.rank.1 < b.rank.1 || (a.rank.1 == b.rank.1 && decide (a.rank.2 < b.rank.2))

instance : ToString Path := ⟨Path.text⟩

def isAbsolute (p : Path) : Bool :=
  p.text.toList.head? == some '/'

/-- The pieces of a path between slashes, empty ones among them. -/
def pieces (p : Path) : List String :=
  (Text.splitAtEach '/' p.text.toList).map String.ofList

/-- Whether a piece stands for no part at a place after the first. -/
def isIdle (piece : String) : Bool :=
  piece == "" || piece == "."

def Part.ofPiece (piece : String) : Part :=
  if piece == ".." then .up else .name piece

def parts (p : Path) : List Part :=
  let start := if p.isAbsolute then [.root] else if p.pieces.head? == some "." then [.here] else []
  start ++ (p.pieces.filter fun piece => !isIdle piece).map Part.ofPiece

def partsBefore : List Part → List Part → Bool
  | _, [] => false
  | [], _ :: _ => true
  | a :: as, b :: bs => if a == b then partsBefore as bs else a.before b

def before (p q : Path) : Bool :=
  partsBefore p.parts q.parts

/-- The path `child` seen from `base`. An absolute child stands for itself. -/
def join (base child : Path) : Path :=
  if child.isAbsolute then child
  else if base.text == "" || base.text.toList.getLast? == some '/' then ⟨base.text ++ child.text⟩
  else ⟨base.text ++ "/" ++ child.text⟩

def entry (base : Path) (name : String) : Path :=
  base.join ⟨name⟩

/-- A path without the slashes at its end, unless it has nothing else. -/
def withoutSlash (p : Path) : Path :=
  match (p.text.toList.reverse.dropWhile (· == '/')).reverse with
  | [] => p
  | cs => ⟨String.ofList cs⟩

def ofPieces (pieces : List String) : Path :=
  match pieces with
  | [""] => ⟨"/"⟩
  | pieces => ⟨"/".intercalate pieces⟩

/-- Drops the idle pieces at the end of reversed pieces, but not the first piece of the path. -/
def dropIdle : List String → List String
  | [] => []
  | [first] => if first == "" then [""] else [first]
  | piece :: before :: rest =>
    if isIdle piece then dropIdle (before :: rest) else piece :: before :: rest

/-- The path without its last part. The root and the empty path have none. -/
def parent (p : Path) : Option Path :=
  match p.parts.getLast? with
  | none | some .root => none
  | some _ =>
    match dropIdle p.pieces.reverse with
    | [] | [_] => some ⟨""⟩
    | _ :: rest => some (ofPieces (dropIdle rest).reverse)

def fileName (p : Path) : Option String :=
  match p.parts.getLast? with
  | some (.name text) => some text
  | _ => none

/-- A name's stem and extension: cut at the last point, unless that is missing or comes first. -/
def cutExtension (name : String) : String × Option String :=
  match Text.cutAtLast '.' name.toList with
  | some ([], _) | none => (name, none)
  | some (stem, extension) => (String.ofList stem, some (String.ofList extension))

def extension (p : Path) : Option String :=
  p.fileName.bind fun name => (cutExtension name).2

/-- The path with another extension. A path that ends in no name is left as it is. -/
def withExtension (p : Path) (extension : String) : Path :=
  match p.fileName with
  | none => p
  | some name =>
    match dropIdle p.pieces.reverse with
    | [] => p
    | _ :: rest => ofPieces (((cutExtension name).1 ++ "." ++ extension) :: rest).reverse

end Path
end StepScript
