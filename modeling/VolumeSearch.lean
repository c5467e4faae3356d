import VolumeSearch.Main
import VolumeSearch.Proofs.Catalog.Place
import VolumeSearch.Proofs.Catalog.Records
import VolumeSearch.Proofs.CommandLine.Roots
import VolumeSearch.Proofs.IdSet
import VolumeSearch.Proofs.IdSet.Heads
import VolumeSearch.Proofs.Index.Dictionary
import VolumeSearch.Proofs.Index.Files
import VolumeSearch.Proofs.Index.Filter
import VolumeSearch.Proofs.Index.ReadBack
import VolumeSearch.Proofs.Index.Rebuild
import VolumeSearch.Proofs.Indexing
import VolumeSearch.Proofs.Indexing.OrderFree
import VolumeSearch.Proofs.Indexing.Refusals
import VolumeSearch.Proofs.Indexing.Walks
import VolumeSearch.Proofs.Json.Objects
import VolumeSearch.Proofs.Postings.AnyBytes
import VolumeSearch.Proofs.Postings.Record
import VolumeSearch.Proofs.Postings.Words
import VolumeSearch.Proofs.Query.Exclusions
import VolumeSearch.Proofs.Query.Gaps
import VolumeSearch.Proofs.Query.Literal
import VolumeSearch.Proofs.Query.Predicate
import VolumeSearch.Proofs.Query.SameTags
import VolumeSearch.Proofs.Query.Tags
import VolumeSearch.Proofs.Query.Written
import VolumeSearch.Proofs.Search.Additions
import VolumeSearch.Proofs.Search.ByFragment
import VolumeSearch.Proofs.Search.ByName
import VolumeSearch.Proofs.Search.ByPath
import VolumeSearch.Proofs.Search.BySize
import VolumeSearch.Proofs.Search.Candidates
import VolumeSearch.Proofs.Search.Complement
import VolumeSearch.Proofs.Search.Corruption
import VolumeSearch.Proofs.Search.Engine
import VolumeSearch.Proofs.Search.MovedDirectories
import VolumeSearch.Proofs.Search.NearNames
import VolumeSearch.Proofs.Search.OwnPath
import VolumeSearch.Proofs.Search.Pages
import VolumeSearch.Proofs.Search.Recreated
import VolumeSearch.Proofs.Search.Scope
import VolumeSearch.Proofs.Search.SharedIds
import VolumeSearch.Proofs.Search.SizeText
import VolumeSearch.Proofs.SlashPath
import VolumeSearch.Proofs.SlashPath.Joining
import VolumeSearch.Proofs.SlashPath.Shortest
import VolumeSearch.Proofs.Term
import VolumeSearch.Query.Tags
