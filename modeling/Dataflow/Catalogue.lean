import Dataflow.Catalogue.Group
import Dataflow.Catalogue.Point
import Dataflow.Catalogue.Sequence

namespace Dataflow.Catalogue

-- The kinds of nodes that are built in.
def all : List NodeType :=
  [number, range, add, subtract, multiply, divide, point, length, sum, group]

end Dataflow.Catalogue
