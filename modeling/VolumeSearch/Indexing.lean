import VolumeSearch.Catalog
import VolumeSearch.Index.Writer
import VolumeSearch.Volume.Walk

/-! Indexing: entries met on a walk go to the catalog and give their terms to the text families. The
filter family is drawn from the whole catalog, so that it also covers what earlier passes met. -/
namespace VolumeSearch.Indexing

inductive Failure where
  | flush
  | scan
  | write (f : Family)
  deriving DecidableEq, Repr

def Failure.message : Failure → String
  | flush => "Failed to flush metadata store"
  | scan => "Failed to scan metadata store"
  | write f => "Failed to write " ++ f.stem ++ " index"

structure Harvest where
  terms : TextTerms := .empty
  entries : Nat := 0
  skipped : Nat := 0

namespace Harvest

def merge (h other : Harvest) : Harvest where
  terms := h.terms.merge other.terms
  entries := h.entries + other.entries
  skipped := h.skipped + other.skipped

def addEntry (h : Harvest) (e : Entry) : Harvest :=
  { h with terms := h.terms.addEntry e, entries := h.entries + 1 }

def skip (h : Harvest) : Harvest := { h with skipped := h.skipped + 1 }

end Harvest

/-- Records an entry; only a recorded one gives its terms. -/
def recordEntry (state : Catalog × Harvest) (e : Entry) : Catalog × Harvest :=
  match state.1.persist e with
  | (c, .ok ()) => (c, state.2.addEntry e)
  | (c, .error _) => (c, state.2.skip)

def record (state : Catalog × Harvest) (visit : Visit) : Catalog × Harvest :=
  match visit.entry? with
  | none => (state.1, state.2.skip)
  | some e => recordEntry state e

def recordAll (c : Catalog) (visits : List Visit) : Catalog × Harvest :=
  visits.foldl record (c, {})

/-- Records the entries of several walks, each with a harvest of its own, and merges these. -/
def recordWalks (c : Catalog) (walks : List (List Visit)) : Catalog × Harvest :=
  walks.foldl (fun (c, total) visits =>
    let (c, h) := recordAll c visits
    (c, total.merge h)) (c, {})

def filterTerms (entries : List Entry) : TermMap :=
  entries.foldl (fun m e => m.addEntry .filter e) .empty

def writeFamily {σ : Type} [Index.Shelf σ] (d : σ) (f : Family) (m : TermMap) :
    σ × Except Failure Nat :=
  let (d, r) := Index.writeFamily d f m
  (d, r.mapError fun _ => .write f)

/-- A place with the filter family drawn from everything the catalog holds. -/
def buildFilter {σ : Type} [Index.Shelf σ] (d : σ) (c : Catalog) : σ × Except Failure Nat :=
  match c.entries with
  | .error _ => (d, .error .scan)
  | .ok entries => writeFamily d .filter (filterTerms entries)

structure Report where
  entries : Nat := 0
  skipped : Nat := 0
  families : List (Family × Nat) := []

/-- A catalog and the place of an index after a pass, whether it came to its end or not. -/
structure Outcome (σ : Type) where
  catalog : Catalog
  index : σ
  result : Except Failure Report

/-- Writes the families of a term map each, as far as that succeeds. -/
def writeFamilies {σ : Type} [Index.Shelf σ] (d : σ) (written : List (Family × Nat)) :
    List (Family × TermMap) → σ × Except Failure (List (Family × Nat))
  | [] => (d, .ok written)
  | (f, m) :: rest =>
    match writeFamily d f m with
    | (d, .ok count) => writeFamilies d (written ++ [(f, count)]) rest
    | (d, .error failure) => (d, .error failure)

def textMaps (t : TextTerms) : List (Family × TermMap) :=
  [(.name, t.name), (.path, t.path), (.nameNgram, t.nameNgram), (.pathNgram, t.pathNgram)]

/-- Writes all families after the walks are done. The first failure ends the pass and leaves the
families written before it in place. -/
def finish {σ : Type} [Index.Shelf σ] (c : Catalog) (d : σ) (h : Harvest) : Outcome σ :=
  match c.flush with
  | .error _ => ⟨c, d, .error .flush⟩
  | .ok () =>
    match writeFamilies d [] (textMaps h.terms) with
    | (d, .error failure) => ⟨c, d, .error failure⟩
    | (d, .ok written) =>
      match buildFilter d c with
      | (d, .error failure) => ⟨c, d, .error failure⟩
      | (d, .ok count) => ⟨c, d, .ok ⟨h.entries, h.skipped, written ++ [(.filter, count)]⟩⟩

/-- Walks the roots one after the other, records what they hold and writes every family. Without a
root nothing is done. -/
def run {σ : Type} [Index.Shelf σ] (v : Volume) (c : Catalog) (d : σ) (hidden : Bool)
    (roots : List String) : Outcome σ :=
  if roots.isEmpty then ⟨c, d, .ok {}⟩
  else
    let (c, h) := recordWalks c (roots.map (v.walk hidden))
    finish c d h

end VolumeSearch.Indexing
