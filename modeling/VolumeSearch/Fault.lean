import VolumeSearch.Terms
import VolumeSearch.Text.Quoted

namespace VolumeSearch
open VolumeSearch.Text

inductive PostingsFault where
  | pastEnd
  | malformed (cause : Postings.DecodeError)
  deriving DecidableEq, Repr

def PostingsFault.message : PostingsFault → String
  | pastEnd => "span past end of postings"
  | malformed cause => cause.message

inductive Inconsistency where
  | pathId (path : String)
  | tableSize (family : Family) (bytes terms : Nat)
  | blobSize (family : Family) (spansEnd bytes : Nat)
  | tooManyTerms (family : Family)
  | postingsTooLong (term : String)
  deriving DecidableEq, Repr

def Inconsistency.message : Inconsistency → String
  | pathId path => "non-numeric id for path " ++ path
  | tableSize family bytes terms =>
    family.stem ++ " offset table holds " ++ toString bytes ++ " bytes for " ++ toString terms ++
      " terms"
  | blobSize family spansEnd bytes =>
    family.stem ++ " postings end at " ++ toString spansEnd ++ " but the blob is " ++
      toString bytes ++ " bytes"
  | tooManyTerms family => "too many terms in " ++ family.stem
  | postingsTooLong term => "postings for " ++ Quoted.encode term ++ " exceed u32 length"

inductive Fault where
  | io
  | json
  | postings (term : UInt32) (cause : PostingsFault)
  | inconsistent (cause : Inconsistency)
  deriving DecidableEq, Repr

def Fault.message : Fault → String
  | io => "io error"
  | json => "json error"
  | postings term cause =>
    "uvarint decode error for term " ++ toString term.toNat ++ ": " ++ cause.message
  | inconsistent cause => "invalid data: " ++ cause.message

end VolumeSearch
