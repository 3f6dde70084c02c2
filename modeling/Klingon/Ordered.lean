/-!
# Increasing lists

Sets and maps whose order shows in an answer are lists in increasing order: a set has no element
twice, a map no key twice.
-/

namespace Klingon.Ordered

variable {α κ ν : Type} [Ord α] [Ord κ]

/-- Puts an element into an increasing list, unless it is there. -/
def insert (a : α) : List α → List α
  | [] => [a]
  | b :: bs =>
    match compare a b with
    | .lt => a :: b :: bs
    | .eq => b :: bs
    | .gt => b :: insert a bs

/-- The set of the elements of a list. -/
def ofList (items : List α) : List α :=
  items.foldr insert []

/-- Binds a key in an increasing map; an earlier value of the key is replaced. -/
def put (key : κ) (value : ν) : List (κ × ν) → List (κ × ν)
  | [] => [(key, value)]
  | (k, v) :: rest =>
    match compare key k with
    | .lt => (key, value) :: (k, v) :: rest
    | .eq => (key, value) :: rest
    | .gt => (k, v) :: put key value rest

/-- The map that the pairs of a list bind one after the other. -/
def ofPairs (pairs : List (κ × ν)) : List (κ × ν) :=
  pairs.foldl (fun map p => put p.1 p.2 map) []

end Klingon.Ordered
