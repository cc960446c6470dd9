/-!
# File paths

A path keeps the text it was written with and is compared by its components.
Repeated and trailing separators and inner `.` pieces are only spelling, so
`/src//a.cpp` and `/src/./a.cpp` name the same file.  `..` is never resolved,
because what it means depends on the file system.
-/

namespace AnalysisJobs

inductive Component
  | root
  /-- The current directory, from a leading `.` of a relative path. -/
  | here
  | up
  | name (chars : List Char)
  deriving DecidableEq, Repr

namespace Component

def rank : Component → Nat
  | root => 0
  | here => 1
  | up => 2
  | name _ => 3

def chars : Component → List Char
  | name cs => cs
  | _ => []

/-- The root comes before `.`, which comes before `..`, which comes before
names; names go by their characters. -/
def order (a b : Component) : Ordering :=
  (compare a.rank b.rank).then (a.chars.compareLex (fun c d => compare c.val d.val) b.chars)

end Component

structure Path where
  text : String
  deriving DecidableEq, Repr

namespace Path

def pieces : List Char → List (List Char)
  | [] => [[]]
  | c :: rest =>
    if c = '/' then [] :: pieces rest
    else match pieces rest with
      | [] => [[c]]
      | piece :: others => (c :: piece) :: others

/-- What a piece counts as, if it counts. -/
def component? : List Char → Option Component
  | [] => none
  | ['.'] => none
  | ['.', '.'] => some .up
  | cs => some (.name cs)

def componentsOf : List Char → List Component
  | '/' :: rest => .root :: (pieces rest).filterMap component?
  | ['.'] => [.here]
  | '.' :: '/' :: rest => .here :: (pieces rest).filterMap component?
  | cs => (pieces cs).filterMap component?

/-- What a path names, free of its spelling. -/
def components (p : Path) : List Component := componentsOf p.text.toList

def Same (p q : Path) : Prop := p.components = q.components

instance (p q : Path) : Decidable (p.Same q) :=
  inferInstanceAs (Decidable (p.components = q.components))

def order (p q : Path) : Ordering := p.components.compareLex Component.order q.components

theorem same_refl (p : Path) : p.Same p := rfl

theorem Same.symm {p q : Path} (h : p.Same q) : q.Same p := Eq.symm h

theorem Same.trans {p q r : Path} (hpq : p.Same q) (hqr : q.Same r) : p.Same r :=
  Eq.trans hpq hqr

end Path

end AnalysisJobs
