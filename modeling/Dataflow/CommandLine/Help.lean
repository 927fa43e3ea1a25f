import Dataflow.CommandLine.Command

namespace Dataflow.CommandLine

def about : Topic → String
  | .program => "Evaluate saved Graft graphs from the command line"
  | .eval => "Load a saved graph (YAML or JSON) and print evaluated outputs"
  | .nodes => "List the built-in node types and their ports"
  | .demo => "Build a small graph in memory, print its snapshot and evaluate it twice"
  | .help => "Print this message or the help of the given subcommand(s)"

def lines (texts : List String) : String :=
  String.join (texts.map fun text => text ++ "\n")

def helpOption : String :=
  "  -h, --help  Print help"

-- What is told about a topic.
def help (topic : Topic) : String :=
  match topic with
  | .program =>
      lines
        [about .program, "", "Usage: graft <COMMAND>", "", "Commands:",
          "  eval   " ++ about .eval, "  nodes  " ++ about .nodes, "  demo   " ++ about .demo,
          "  help   " ++ about .help, "", "Options:", helpOption]
  | .eval =>
      lines
        [about .eval, "", "Usage: graft eval [OPTIONS] <GRAPH>", "", "Arguments:",
          "  <GRAPH>  ", "", "Options:",
          "      --node <NODE>      Node to evaluate. Defaults to every top-level node " ++
            "nothing reads from",
          "  -o, --output <OUTPUT>  [default: 0]",
          "      --config <CONFIG>  Engine tunables (YAML or JSON)",
          "  -h, --help             Print help"]
  | .nodes => lines [about .nodes, "", "Usage: graft nodes", "", "Options:", helpOption]
  | .demo => lines [about .demo, "", "Usage: graft demo", "", "Options:", helpOption]
  | .help =>
      lines
        [about .help, "", "Usage: graft help [COMMAND]...", "", "Arguments:",
          "  [COMMAND]...  Print help for the subcommand(s)"]

def UsageError.reason : UsageError → String
  | nothing => ""
  | unknownCommand word => "unrecognized subcommand '" ++ word ++ "'"
  | unexpected word => "unexpected argument '" ++ word ++ "' found"
  | missing name => "a value is required for '" ++ name ++ "' but none was supplied"
  | repeated name => "the argument '" ++ name ++ "' cannot be used multiple times"
  | invalid name word => "invalid value '" ++ word ++ "' for '" ++ name ++ "'"

-- What is told about wrong arguments.
def UsageError.message : UsageError → String
  | nothing => help .program
  | fault => lines ["error: " ++ fault.reason, "", "For more information, try '--help'."]

end Dataflow.CommandLine
