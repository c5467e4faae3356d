import VolumeSearch.Index.Directory
import VolumeSearch.Volume.Edit

namespace VolumeSearch.Catalog
open VolumeSearch.Volume

def largeValues (dir : String) : String := SlashPath.within dir "blobs"

def formFile (dir : String) : String := SlashPath.within dir "conf"

def dataFile (dir : String) : String := SlashPath.within dir "db"

def formText : Bytes :=
  Bytes.ofText "segment_size: 524288\nuse_compression: false\nversion: 0.34\n"

/-- What is written behind the form to check it, and not looked at again. -/
def checkSum : Bytes := [0x76, 0x19, 0x51, 0xc1]

def accepts (c : Contents) : Bool :=
  c.zeros = 0 && c.data.take (c.data.length - checkSum.length) = formText

/-- A file on the form that has no more bytes than this counts as empty. -/
def emptyForm : Nat := 8

def writeForm (dir : String) : Edit Unit := do
  let unfinished := SlashPath.within dir "conf.tmp"
  writeFile unfinished (·.overwrite (formText ++ checkSum))
  rename unfinished (formFile dir)

/-- Accepts a store of this form, and gives a new one its form. -/
def settleForm (dir : String) : Edit Unit := do
  let v ← get
  match v.resolve .target (formFile dir) with
  | .error .missing => writeForm dir
  | .error fault => throw fault
  | .ok chain =>
    match (v.root.at? chain).bind Node.contents? with
    | none => throw .isDirectory
    | some contents =>
      if contents.size ≤ emptyForm then writeForm dir
      else unless accepts contents do throw .occupied

/-- Opens the store in a directory and makes what is missing of it. The result tells stores apart: it
is the chain of names to the data. -/
def openAt (dir : String) : Edit (List String) := do
  unless (← get).has (largeValues dir) do makeDirs (largeValues dir)
  settleForm dir
  let chain ← openFile (dataFile dir)
  unless (← get).hasDirectory (largeValues dir) do throw .notDirectory
  return chain

end VolumeSearch.Catalog

namespace VolumeSearch.Volume

/-- A volume and the path of one of its directories, which may be missing. -/
structure Folder where
  volume : Volume
  path : String

namespace Folder

def file (f : Folder) (name : String) : String := SlashPath.within f.path name

def edit (f : Folder) : Index.FileStep → Edit Unit
  | .makeDir => makeDirs f.path
  | .create name => writeFile (f.file name) fun _ => .empty
  | .fill name data => writeFile (f.file name) (·.overwrite data)
  | .rename name target => rename (f.file name) (f.file target)

instance : Index.Shelf Folder where
  perform f step :=
    let (volume, result) := f.volume.apply (f.edit step)
    ({ f with volume }, result.mapError fun _ => .io)

def item (node : Node) : IndexItem :=
  match node.contents? with
  | some contents => .file contents
  | none => .other node.size

/-- The index in the directory: what the paths of its files lead to. -/
def index (f : Folder) : IndexDir :=
  .files ((Family.all.flatMap Family.files).foldl (fun named name =>
    match f.volume.find? (f.file name) with
    | some node => named.insert name (item node)
    | none => named) ∅)

end Folder

def indexAt (v : Volume) (path : String) : IndexDir := Folder.index ⟨v, path⟩

end VolumeSearch.Volume
