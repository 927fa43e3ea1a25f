import Dataflow.Proofs.Yaml.Scanned
import Dataflow.Yaml.Node

namespace Dataflow.Yaml

-- The node of a scalar that was found.
def scalarNode : Token → Node
  | .scalar style text => .scalar none style text
  | _ => emptyNode

mutual
-- The node that a tree is read as.
def nodeOf : Tree → Node
  | .seq items => .sequence none (nodesOf items)
  | .map fields => .mapping none (entriesOf fields)
  | leaf => scalarNode ((leafTokens leaf).headD .key)

def nodesOf : List Tree → List Node
  | [] => []
  | item :: rest => nodeOf item :: nodesOf rest

def entriesOf : List (Tree × Tree) → List (Node × Node)
  | [] => []
  | (key, value) :: rest => (scalarNode (keyToken key), nodeOf value) :: entriesOf rest
end

theorem keyToken_eq (key : Tree) : ∃ style text, keyToken key = .scalar style text := by
  cases key <;> exact ⟨_, _, rfl⟩

section Steps

variable {shorthands : Shorthands} {context : Context} {fuel : Nat} {anchors : Anchors}
  {rest : List Token}

theorem composeNode_scalar (style : Style) (text : List Char) :
    composeNode shorthands context (fuel + 1) anchors (.scalar style text :: rest) =
      some (.scalar none style text, anchors, rest) := by
  rfl

theorem composeNode_blockSequence (h : context ≠ .flow) :
    composeNode shorthands context (fuel + 1) anchors (.blockSequenceStart :: rest) =
      (composeBlockSequence shorthands fuel anchors [] rest).map fun (items, anchors, rest) =>
        (.sequence none items, anchors, rest) := by
  cases context with
  | flow => exact absurd rfl h
  | block => rfl
  | entry => rfl

theorem composeNode_blockMapping (h : context ≠ .flow) :
    composeNode shorthands context (fuel + 1) anchors (.blockMappingStart :: rest) =
      (composeBlockMapping shorthands fuel anchors [] rest).map fun (entries, anchors, rest) =>
        (.mapping none entries, anchors, rest) := by
  cases context with
  | flow => exact absurd rfl h
  | block => rfl
  | entry => rfl

theorem composeNode_indentless :
    composeNode shorthands .entry (fuel + 1) anchors (.blockEntry :: rest) =
      (composeIndentless shorthands fuel anchors [] (.blockEntry :: rest)).map
        fun (items, anchors, rest) => (.sequence none items, anchors, rest) := by
  rfl

theorem composeNode_hollowSequence :
    composeNode shorthands context (fuel + 2) anchors
      (.flowSequenceStart :: .flowSequenceEnd :: rest) =
      some (.sequence none [], anchors, rest) := by
  rfl

theorem composeNode_hollowMapping :
    composeNode shorthands context (fuel + 2) anchors
      (.flowMappingStart :: .flowMappingEnd :: rest) =
      some (.mapping none [], anchors, rest) := by
  rfl

end Steps

section Heads

-- The tokens that a tree begins with after a mark, and after a key.
def opensNode (token : Token) : Bool :=
  match token with
  | .scalar _ _ | .flowSequenceStart | .flowMappingStart | .blockSequenceStart
  | .blockMappingStart => true
  | _ => false

theorem treeTokens_cons (tree : Tree) :
    ∃ token more, treeTokens false tree = token :: more ∧ opensNode token = true := by
  cases tree with
  | seq items => cases items <;> exact ⟨_, _, rfl, rfl⟩
  | map fields => cases fields <;> exact ⟨_, _, rfl, rfl⟩
  | _ => exact ⟨_, _, rfl, rfl⟩

theorem treeTokens_afterKey_cons (afterKey : Bool) (tree : Tree) :
    ∃ token more, treeTokens afterKey tree = token :: more ∧
      (opensNode token = true ∨ token = .blockEntry) := by
  cases afterKey with
  | false =>
      obtain ⟨token, more, heq, hopens⟩ := treeTokens_cons tree
      exact ⟨token, more, heq, .inl hopens⟩
  | true =>
      cases tree with
      | seq items =>
          cases items with
          | nil => exact ⟨_, _, rfl, .inl rfl⟩
          | cons item rest => exact ⟨_, _, rfl, .inr rfl⟩
      | map fields => cases fields <;> exact ⟨_, _, rfl, .inl rfl⟩
      | _ => exact ⟨_, _, rfl, .inl rfl⟩

variable {shorthands : Shorthands} {fuel : Nat} {anchors : Anchors} {token : Token}
  {rest more : List Token}

-- A loop that composes the items of a list one by one, up to where they end.
structure Collects (shorthands : Shorthands)
    (loop : Nat → Anchors → List Node → List Token → Option (List Node × Anchors × List Token))
    (ending rest : List Token) : Prop where
  stop : ∀ {fuel anchors} done,
    loop (fuel + 1) anchors done ending = some (done.reverse, anchors, rest)
  item : ∀ {fuel anchors token more node after} done, opensNode token = true →
    composeNode shorthands .block fuel anchors (token :: more) = some (node, anchors, after) →
    loop (fuel + 1) anchors done (.blockEntry :: token :: more) =
      loop fuel anchors (node :: done) after

theorem collects_blockSequence :
    Collects shorthands (composeBlockSequence shorthands) (.blockEnd :: rest) rest where
  stop _ := rfl
  item {_ _ token _ _ _} done h hnode := by
    cases token <;> first
      | exact absurd h Bool.false_ne_true
      | simp only [composeBlockSequence, hnode]

theorem collects_indentless (h : rest.head? ≠ some .blockEntry) :
    Collects shorthands (composeIndentless shorthands) rest rest where
  stop done := by
    cases rest with
    | nil => rfl
    | cons token rest => cases token <;> first | exact absurd rfl h | rfl
  item {_ _ token _ _ _} done h hnode := by
    cases token <;> first
      | exact absurd h Bool.false_ne_true
      | simp only [composeIndentless, hnode]

theorem composeBlockPart_node (h : opensNode token = true ∨ token = .blockEntry) :
    composeBlockPart shorthands (fuel + 1) anchors (token :: more) =
      composeNode shorthands .entry fuel anchors (token :: more) := by
  rcases h with h | rfl
  · cases token <;> first | exact absurd h Bool.false_ne_true | rfl
  · rfl

end Heads

section Trees

mutual
-- A tree is composed from its tokens. After a key no list may go on behind it.
theorem composeNode_tree (tree : Tree) (afterKey : Bool) (shorthands : Shorthands)
    {context : Context} (fuel : Nat) (anchors : Anchors) (rest : List Token)
    (hflow : context ≠ .flow)
    (hentry : afterKey = true → context = .entry ∧ rest.head? ≠ some .blockEntry)
    (hfuel : 2 * (treeTokens afterKey tree).length + 2 ≤ fuel) :
    composeNode shorthands context fuel anchors (treeTokens afterKey tree ++ rest) =
      some (nodeOf tree, anchors, rest) := by
  obtain ⟨fuel, rfl⟩ : ∃ n, fuel = n + 2 := ⟨fuel - 2, by omega⟩
  match tree with
  | .null | .bool _ | .int _ | .float _ | .single _ | .text _ => exact composeNode_scalar _ _
  | .seq [] => exact composeNode_hollowSequence
  | .map [] => exact composeNode_hollowMapping
  | .seq (item :: more) =>
      cases afterKey with
      | true =>
          obtain ⟨rfl, hhead⟩ := hentry rfl
          rw [treeTokens, if_pos rfl] at hfuel
          have hitems := collects_items (item :: more) shorthands (collects_indentless hhead)
            (fuel + 1) anchors [] (by omega)
          rw [treeTokens, if_pos rfl]
          rw [itemTokens, List.cons_append] at hitems ⊢
          rw [composeNode_indentless, hitems]
          rfl
      | false =>
          rw [treeTokens, if_neg Bool.false_ne_true, List.length_cons, List.length_append] at hfuel
          have hloop : Collects shorthands (composeBlockSequence shorthands) (.blockEnd :: rest)
              rest := collects_blockSequence
          have hitems := collects_items (item :: more) shorthands hloop (fuel + 1) anchors []
            (by omega)
          rw [treeTokens, if_neg Bool.false_ne_true, List.cons_append, List.append_assoc,
            composeNode_blockSequence hflow]
          rw [List.singleton_append, hitems]
          rfl
  | .map (field :: more) =>
      rw [treeTokens, List.length_cons, List.length_append] at hfuel
      have hfields := composeBlockMapping_fields (field :: more) shorthands (fuel + 1) anchors rest
        [] (by omega)
      rw [treeTokens, List.cons_append, List.append_assoc, composeNode_blockMapping hflow]
      rw [List.singleton_append, hfields]
      rfl

theorem collects_items {loop : Nat → Anchors → List Node → List Token →
      Option (List Node × Anchors × List Token)} {ending rest : List Token} (items : List Tree)
    (shorthands : Shorthands) (h : Collects shorthands loop ending rest) (fuel : Nat)
    (anchors : Anchors) (done : List Node) (hfuel : 2 * (itemTokens items).length + 1 ≤ fuel) :
    loop fuel anchors done (itemTokens items ++ ending) =
      some (done.reverse ++ nodesOf items, anchors, rest) := by
  obtain ⟨fuel, rfl⟩ : ∃ n, fuel = n + 1 := ⟨fuel - 1, by omega⟩
  match items with
  | [] =>
      rw [nodesOf, List.append_nil]
      exact h.stop done
  | item :: more =>
      rw [itemTokens, List.length_cons, List.length_append] at hfuel
      have hitem := @composeNode_tree item false shorthands .block fuel anchors
        (itemTokens more ++ ending) nofun nofun (by omega)
      obtain ⟨token, tail, htokens, hopens⟩ := treeTokens_cons item
      have hmore := collects_items more shorthands h fuel anchors (nodeOf item :: done) (by omega)
      rw [itemTokens, List.cons_append, List.append_assoc]
      rw [htokens, List.cons_append] at hitem ⊢
      rw [h.item done hopens hitem, hmore, List.reverse_cons, List.append_assoc, nodesOf]
      rfl

theorem composeBlockMapping_fields (fields : List (Tree × Tree)) (shorthands : Shorthands)
    (fuel : Nat) (anchors : Anchors) (rest : List Token) (done : List (Node × Node))
    (hfuel : 2 * (fieldTokens fields).length + 1 ≤ fuel) :
    composeBlockMapping shorthands fuel anchors done (fieldTokens fields ++ .blockEnd :: rest) =
      some (done.reverse ++ entriesOf fields, anchors, rest) := by
  obtain ⟨fuel, rfl⟩ : ∃ n, fuel = n + 1 := ⟨fuel - 1, by omega⟩
  match fields with
  | [] =>
      rw [entriesOf, List.append_nil]
      rfl
  | (key, value) :: more =>
      rw [fieldTokens, List.length_cons, List.length_cons, List.length_cons,
        List.length_append] at hfuel
      obtain ⟨fuel, rfl⟩ : ∃ n, fuel = n + 2 := ⟨fuel - 2, by omega⟩
      obtain ⟨style, text, hkey⟩ := keyToken_eq key
      obtain ⟨token, tail, htokens, hopens⟩ := treeTokens_afterKey_cons (isSimpleKey key) value
      have hhead : (fieldTokens more ++ .blockEnd :: rest).head? ≠ some .blockEntry := by
        match more with
        | [] => exact nofun
        | (key, value) :: more => exact nofun
      have hvalue := @composeNode_tree value (isSimpleKey key) shorthands .entry (fuel + 1) anchors
        (fieldTokens more ++ .blockEnd :: rest) nofun (fun _ => ⟨rfl, hhead⟩) (by omega)
      have hmore := composeBlockMapping_fields more shorthands (fuel + 2) anchors rest
        ((scalarNode (keyToken key), nodeOf value) :: done) (by omega)
      have hkeyPart : ∀ after, composeBlockPart shorthands (fuel + 2) anchors
          (keyToken key :: after) = some (scalarNode (keyToken key), anchors, after) := by
        intro after
        rw [hkey, composeBlockPart_node (.inl rfl), composeNode_scalar]
        rfl
      have hvaluePart : composeBlockPart shorthands (fuel + 2) anchors
          (treeTokens (isSimpleKey key) value ++ (fieldTokens more ++ .blockEnd :: rest)) =
          some (nodeOf value, anchors, fieldTokens more ++ .blockEnd :: rest) := by
        rw [htokens, List.cons_append] at hvalue ⊢
        rw [composeBlockPart_node hopens, hvalue]
      rw [fieldTokens, List.cons_append, List.cons_append, List.cons_append, List.append_assoc,
        composeBlockMapping]
      simp only [hkeyPart, hvaluePart, hmore, entriesOf, List.reverse_cons, List.append_assoc,
        List.singleton_append]
end

end Trees

end Dataflow.Yaml
