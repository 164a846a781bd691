/-! Paths as texts, and their components. -/

namespace RuleTidy.Platform

def piecesAt (mark : Char) : List Char → List (List Char)
  | [] => [[]]
  | c :: rest =>
    if c = mark then [] :: piecesAt mark rest
    else match piecesAt mark rest with
      | [] => [[c]]
      | piece :: pieces => (c :: piece) :: pieces

inductive Component where
  | root
  | current
  | parent
  | name (text : String)
  deriving DecidableEq

/-- The components by which paths are compared. Empty pieces do not count, and a point counts only
as the first piece of all. -/
def pathComponents (path : String) : List Component :=
  let pieces := (piecesAt '/' path.toList).map String.ofList
  let first := match pieces with
    | "" :: _ :: _ => [.root]
    | "." :: _ => [.current]
    | _ => []
  first ++ pieces.filterMap fun piece =>
    if piece = "" || piece = "." then none
    else if piece = ".." then some .parent else some (.name piece)

end RuleTidy.Platform
