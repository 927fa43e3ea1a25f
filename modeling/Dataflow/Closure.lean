namespace Dataflow

namespace Closure

variable {ι : Type} [DecidableEq ι]

-- The candidates that have not been seen, each once.
def unseen (seen : List ι) : List ι → List ι
  | [] => []
  | candidate :: rest =>
      if candidate ∈ seen then unseen seen rest
      else candidate :: unseen (candidate :: seen) rest

-- Everything that steps lead to, one layer at a time: `frontier` is the last layer of
-- what has been seen. Every round but the last finds something new, so as many rounds
-- as there are things are enough.
def grow (next : ι → List ι) : Nat → List ι → List ι → List ι
  | 0, seen, _ => seen
  | rounds + 1, seen, frontier =>
      match unseen seen (frontier.flatMap next) with
      | [] => seen
      | found => grow next rounds (seen ++ found) found

-- The start and everything that steps lead to from it.
def reached (next : ι → List ι) (rounds : Nat) (start : ι) : List ι :=
  grow next rounds [start] [start]

end Closure

end Dataflow
