import Dataflow.Document.Source
import Dataflow.Json.Place
import Dataflow.Json.Printer
import Dataflow.Yaml.Place
import Dataflow.Yaml.Printer

namespace Dataflow

-- The limits and rules of an engine.
structure Settings where
  -- how far back one request may reach
  maxEvalDepth : Nat
  -- how many aliases one walk may follow
  maxAliasHops : Nat
  -- whether an edge must join ports of compatible types
  enforcePortTypes : Bool
deriving DecidableEq, BEq

namespace Settings

def standard : Settings :=
  ⟨512, 64, true⟩

instance : Inhabited Settings := ⟨standard⟩

-- What a document leaves out keeps its standard value.
def read {place : Type} [Source place] (at_ : place) : Reading Settings := do
  match ← Source.fields ["max_eval_depth", "max_alias_hops", "enforce_port_types"] at_ with
  | [depth, hops, types] =>
      pure
        { maxEvalDepth := ← Source.orElse standard.maxEvalDepth Source.natural depth
          maxAliasHops := ← Source.orElse standard.maxAliasHops Source.natural hops
          enforcePortTypes := ← Source.orElse standard.enforcePortTypes Source.truth types }
  | _ => Reading.refuse

def ofJson? : String → Option Settings :=
  Json.read? read

def ofYaml? : String → Option Settings :=
  Yaml.read? read

def toTree (settings : Settings) : Tree :=
  .record
    [("max_eval_depth", .int settings.maxEvalDepth), ("max_alias_hops", .int settings.maxAliasHops),
      ("enforce_port_types", .bool settings.enforcePortTypes)]

def toYaml (settings : Settings) : String :=
  Yaml.print settings.toTree

end Settings

end Dataflow
