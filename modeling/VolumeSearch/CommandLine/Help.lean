import VolumeSearch.CommandLine.Arguments

namespace VolumeSearch.CommandLine

namespace Topic

def indexDirLine : String := "      --index-dir <INDEX_DIR>  Index directory (overrides config)"

def storeDirLine : String := "      --store-dir <STORE_DIR>  Metadata store directory (overrides config)"

def quietLine : String := "  -q, --quiet                  Suppress progress output"

def helpLine : String := "  -h, --help                   Print help"

def about : Topic → String
  | program => "File name and path search for NAS volumes"
  | index => "Walk roots and rebuild every index family"
  | ensure => "Build the index only when it is missing"
  | search => "Search the index"
  | parse => "Print the parsed predicates of a query as JSON"
  | stats => "Show index statistics"
  | help => "Print this message or the help of the given subcommand(s)"

def usageText : Topic → String
  | program => "nasfind [OPTIONS] <COMMAND>"
  | index => "nasfind index [OPTIONS] [ROOTS]..."
  | ensure => "nasfind ensure [OPTIONS] [ROOTS]..."
  | search => "nasfind search [OPTIONS] <QUERY>..."
  | parse => "nasfind parse [OPTIONS] <QUERY>..."
  | stats => "nasfind stats [OPTIONS]"
  | help => "nasfind help [COMMAND]..."

def operandLines : Topic → List String
  | program =>
    ["Commands:", "  index   Walk roots and rebuild every index family",
      "  ensure  Build the index only when it is missing", "  search  Search the index",
      "  parse   Print the parsed predicates of a query as JSON",
      "  stats   Show index statistics",
      "  help    Print this message or the help of the given subcommand(s)", ""]
  | index | ensure =>
    ["Arguments:", "  [ROOTS]...  Roots to walk (defaults to the configured roots)", ""]
  | search =>
    ["Arguments:", "  <QUERY>...  Query text (free text, a path, or field:value groups)", ""]
  | parse => ["Arguments:", "  <QUERY>...  ", ""]
  | stats => []
  | help => ["Arguments:", "  [COMMAND]...  Print help for the subcommand(s)"]

def sharedLines : List String := [indexDirLine, storeDirLine, quietLine, helpLine]

def hiddenLine : String := "      --hidden                 Include dotfiles and dot-directories"

def ownLines : Topic → List String
  | index => [hiddenLine, "      --parallel               Walk roots in parallel"]
  | ensure => [hiddenLine]
  | search =>
    ["      --parent <PARENT>        Restrict results to this directory",
      "      --offset <OFFSET>        [default: 0]",
      "      --limit <LIMIT>          [default: 50]",
      "      --size <SIZE>            Size filter such as \">1GB\" or \"<=100MB\""]
  | _ => []

def optionLines : Topic → List String
  | help => []
  | t => "Options:" :: t.ownLines ++ sharedLines

def lines (t : Topic) : List String :=
  [t.about, "", "Usage: " ++ t.usageText, ""] ++ t.operandLines ++ t.optionLines

end Topic

end VolumeSearch.CommandLine
