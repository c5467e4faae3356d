import VolumeSearch.Postings

namespace VolumeSearch.Ascending
variable {α : Type} [DecidableEq α]

def dropRepeats : List α → List α
  | a :: b :: rest => if a = b then dropRepeats (b :: rest) else a :: dropRepeats (b :: rest)
  | xs => xs

def ofList [LE α] [DecidableLE α] (xs : List α) : List α :=
  dropRepeats (xs.mergeSort fun a b => a ≤ b)

end VolumeSearch.Ascending

namespace VolumeSearch.IdSet

/-- The ids in both lists. Those of the second below the next one of the first are passed over. -/
def intersect : List FileId → List FileId → List FileId
  | [], _ => []
  | a :: as, bs =>
    match bs.dropWhile (· < a) with
    | [] => []
    | b :: rest => if a = b then a :: intersect as rest else intersect as (b :: rest)

def dropHead (a : FileId) : List FileId → List FileId
  | [] => []
  | b :: rest => if a = b then rest else b :: rest

/-- The two lists in one order; an id that heads both is taken once. -/
def merge : List FileId → List FileId → List FileId
  | [], bs => bs
  | a :: as, bs =>
    bs.takeWhile (· < a) ++ a :: merge as (dropHead a (bs.dropWhile (· < a)))

def union (as bs : List FileId) : List FileId := Ascending.dropRepeats (merge as bs)

/-- The ids in all lists, the shortest lists taken first; nothing when there is no list. -/
def intersectAll (sets : List (List FileId)) : List FileId :=
  match sets.mergeSort fun a b => a.length ≤ b.length with
  | [] => []
  | first :: rest => rest.foldl intersect first

def ofList (ids : List FileId) : List FileId := Ascending.ofList ids

end VolumeSearch.IdSet
