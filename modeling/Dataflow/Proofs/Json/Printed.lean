import Dataflow.Proofs.Document.Shown
import Dataflow.Proofs.Json.Numerals
import Dataflow.Proofs.Json.Strings

namespace Dataflow.Json

-- Numbers whose digits, as a document of their own, read back as them.
def ReadsBack (x : Float) : Prop :=
  read? (Source.tree : Place → Reading Tree) (doubleLayout.writeFloat x) = some (.float x)

def SingleReadsBack (x : Float32) : Prop :=
  read? (Source.single : Place → Reading Float32) (singleLayout.writeFloat32 x) = some x

instance : DecidablePred ReadsBack := fun x =>
  let isSame := fun tree : Tree =>
    match tree with
    | .float y => decide (y = x)
    | _ => false
  decidable_of_iff
    ((read? (Source.tree : Place → Reading Tree) (doubleLayout.writeFloat x)).any isSame = true) (by
      rw [Option.any_eq_true, ReadsBack]
      constructor
      · rintro ⟨tree, hread, hsame⟩
        cases tree with
        | float y => rw [hread, of_decide_eq_true hsame]
        | null | bool | int | single | text | seq | map => cases hsame
      · exact fun hread => ⟨.float x, hread, decide_eq_true rfl⟩)

instance : DecidablePred SingleReadsBack := fun x =>
  inferInstanceAs (Decidable (read? _ (singleLayout.writeFloat32 x) = some x))

def keyOf : Tree → List Piece
  | .text s => s.toList.map piece
  | _ => []

-- What is read where this text stands.
def valueIn (text : String) : Json :=
  (parse? text).getD .null

mutual
-- What is read where a tree was written.
def ofTree : Tree → Json
  | .null => null
  | .bool truth => bool truth
  | .int i => valueIn (toString i)
  | .float x => valueIn (doubleLayout.writeFloat x)
  | .single x => valueIn (singleLayout.writeFloat32 x)
  | .text s => string (s.toList.map piece)
  | .seq items => array (ofTrees items)
  | .map fields => object (ofFields fields)

def ofTrees : List Tree → List Json
  | [] => []
  | item :: rest => ofTree item :: ofTrees rest

def ofFields : List (Tree × Tree) → List (List Piece × Json)
  | [] => []
  | (key, value) :: rest => (keyOf key, ofTree value) :: ofFields rest
end

section Blanks

theorem skipBlanks_append {blanks : List Char} (h : ∀ c ∈ blanks, isBlank c = true)
    (cs : List Char) : skipBlanks (blanks ++ cs) = skipBlanks cs :=
  List.dropWhile_append_of_pos h

theorem skipBlanks_cons {c : Char} (h : isBlank c = false) (cs : List Char) :
    skipBlanks (c :: cs) = c :: cs :=
  List.dropWhile_cons_of_neg (by rw [h]; exact Bool.false_ne_true)

theorem isBlank_of_mem_newLine {level : Nat} {c : Char} (h : c ∈ (newLine level).toList) :
    isBlank c = true := by
  rw [newLine, String.toList_ofList, List.mem_cons, List.mem_replicate] at h
  rcases h with rfl | ⟨-, rfl⟩ <;> rfl

variable {blanks : List Char}

theorem parseValue_blanks (h : ∀ c ∈ blanks, isBlank c = true) (fuel : Nat) (cs : List Char) :
    parseValue fuel (blanks ++ cs) = parseValue fuel cs := by
  cases fuel with
  | zero => rfl
  | succ fuel => rw [parseValue, parseValue, skipBlanks_append h]

theorem parseItems_blanks (h : ∀ c ∈ blanks, isBlank c = true) (fuel : Nat) (done : List Json)
    (cs : List Char) : parseItems fuel done (blanks ++ cs) = parseItems fuel done cs := by
  cases fuel with
  | zero => rfl
  | succ fuel => rw [parseItems, parseItems, parseValue_blanks h]

theorem parseMembers_blanks (h : ∀ c ∈ blanks, isBlank c = true) (fuel : Nat)
    (done : List (List Piece × Json)) (cs : List Char) :
    parseMembers fuel done (blanks ++ cs) = parseMembers fuel done cs := by
  cases fuel with
  | zero => rfl
  | succ fuel => rw [parseMembers, parseMembers, skipBlanks_append h]

-- The blanks at the front may as well be gone.
theorem apply_skipBlanks {β : Type} {f : List Char → β}
    (h : ∀ {blanks}, (∀ c ∈ blanks, isBlank c = true) → ∀ cs, f (blanks ++ cs) = f cs)
    (cs : List Char) : f (skipBlanks cs) = f cs := by
  conv => rhs; rw [← List.takeWhile_append_dropWhile (p := isBlank) (l := cs)]
  exact (h (fun c => List.all_eq_true.mp List.all_takeWhile c) _).symm

theorem parseItems_skipBlanks (fuel : Nat) (done : List Json) (cs : List Char) :
    parseItems fuel done (skipBlanks cs) = parseItems fuel done cs :=
  apply_skipBlanks (fun h => parseItems_blanks h fuel done) cs

theorem parseMembers_skipBlanks (fuel : Nat) (done : List (List Piece × Json)) (cs : List Char) :
    parseMembers fuel done (skipBlanks cs) = parseMembers fuel done cs :=
  apply_skipBlanks (fun h => parseMembers_blanks h fuel done) cs

end Blanks

section Brackets

-- A list that can be read item by item is not closed before the first of them.
theorem parseValue_array {fuel : Nat} {cs : List Char} {result : Json × List Char}
    (h : parseItems fuel [] cs = some result) : parseValue (fuel + 1) ('[' :: cs) = some result := by
  simp only [parseValue, skipBlanks_cons (show isBlank '[' = false by decide)]
  split
  · rename_i rest heq
    rw [← parseItems_skipBlanks, heq] at h
    cases fuel with
    | zero => cases h
    | succ fuel =>
        cases fuel with
        | zero => cases h
        | succ fuel => cases h
  · rw [parseItems_skipBlanks, h]

theorem parseValue_object {fuel : Nat} {cs : List Char} {result : Json × List Char}
    (h : parseMembers fuel [] cs = some result) :
    parseValue (fuel + 1) ('\x7b' :: cs) = some result := by
  simp only [parseValue, skipBlanks_cons (show isBlank '\x7b' = false by decide)]
  split
  · rename_i rest heq
    rw [← parseMembers_skipBlanks, heq] at h
    cases fuel with
    | zero => cases h
    | succ fuel => cases h
  · rw [parseMembers_skipBlanks, h]

end Brackets

section Blocks

-- The text of the parts of a block after its opening bracket, the closing one included.
def inside (level : Nat) (closing : String) (parts : List String) : List Char :=
  ((("," ++ newLine (level + 1)).toList).intercalate (parts.map String.toList)) ++
    (newLine level).toList ++ closing.toList

theorem toList_block_nil (opening closing : String) (level : Nat) :
    (block opening closing level []).toList = opening.toList ++ closing.toList :=
  String.toList_append

theorem toList_block {parts : List String} (h : parts ≠ []) (opening closing : String)
    (level : Nat) :
    (block opening closing level parts).toList =
      opening.toList ++ (newLine (level + 1)).toList ++ inside level closing parts := by
  have hne : ¬parts.isEmpty = true := by rwa [List.isEmpty_iff]
  rw [block, if_neg hne, inside]
  simp only [String.toList_append, String.toList_intercalate, List.append_assoc]

theorem inside_single (level : Nat) (closing : String) (part : String) :
    inside level closing [part] = part.toList ++ ((newLine level).toList ++ closing.toList) := by
  rw [inside, List.map_singleton, List.intercalate_singleton, List.append_assoc]

theorem inside_cons (level : Nat) (closing : String) (part next : String) (rest : List String) :
    inside level closing (part :: next :: rest) =
      part.toList ++ (',' :: ((newLine (level + 1)).toList ++ inside level closing (next :: rest))) := by
  simp only [inside, List.map_cons, List.intercalate_cons_cons, String.toList_append,
    List.append_assoc]
  rfl

theorem prettyAll_eq (level : Nat) (done : List String) (items : List Tree) :
    prettyAll level done items = done.reverse ++ items.map (pretty level) := by
  induction items generalizing done with
  | nil => simp [prettyAll]
  | cons item rest ih => simp [prettyAll, ih]

-- A member as it is written: its key, a colon and its value.
def member (level : Nat) (field : Tree × Tree) : String :=
  keyText field.1 ++ ": " ++ pretty level field.2

theorem prettyFields_eq (level : Nat) (done : List String) (fields : List (Tree × Tree)) :
    prettyFields level done fields = done.reverse ++ fields.map (member level) := by
  induction fields generalizing done with
  | nil => simp [prettyFields]
  | cons field rest ih => simp [prettyFields, ih, member]

end Blocks

section Spelling

theorem ends_newLine (level : Nat) (cs : List Char) : Ends ((newLine level).toList ++ cs) := by
  intro c hc
  rw [newLine, String.toList_ofList, List.cons_append, List.head?_cons] at hc
  obtain rfl := Option.some.inj hc
  decide

theorem ends_comma (cs : List Char) : Ends (',' :: cs) := by
  intro c hc
  obtain rfl := Option.some.inj hc
  decide

theorem parse?_of_spells {text : String} {value : Json} (h : Spells text.toList value) :
    parse? text = some value := by
  have hparse := h (2 * text.toList.length + 2) [] (fun c hc => nomatch hc) (by omega)
  rw [List.append_nil] at hparse
  simp only [parse?, hparse]
  rfl

theorem valueIn_of_spells {text : String} {value : Json} (h : Spells text.toList value) :
    valueIn text = value := by
  rw [valueIn, parse?_of_spells h]
  rfl

-- What a document of its own says, if it is read for what it is.
theorem read?_eq_some {α : Type} {reader : Place → Reading α} {text : String} {result : α}
    (h : read? reader text = some result) :
    ∃ value count, parse? text = some value ∧
      reader ⟨mostLevels, value⟩ 0 = some (result, count) := by
  simp only [read?, Option.bind_eq_bind, Option.bind_eq_some_iff] at h
  obtain ⟨value, hvalue, ⟨result', count⟩, hread, heq⟩ := h
  obtain rfl := Option.some.inj heq
  exact ⟨value, count, hvalue, hread⟩

theorem parse?_null : parse? "null" = some null :=
  rfl

-- What is written for a number is read wherever it stands, unless it is null: that is
-- what stands for infinities and for what is no number.
theorem spells_written {layout : Layout} {width : Width} {binary : Binary} {value : Json}
    (hlayout : layout = doubleLayout ∨ layout = singleLayout)
    (h : parse? (String.ofList (layout.write width binary)) = some value) (hne : value ≠ null) :
    Spells (layout.write width binary) value ∧ ∃ numeral, value = .number numeral := by
  have hnull : ∀ text : List Char, String.ofList text = "null" →
      parse? (String.ofList text) ≠ some value := by
    intro text htext hparse
    rw [htext, parse?_null] at hparse
    exact hne (Option.some.inj hparse).symm
  cases binary with
  | nan =>
      refine absurd h (hnull _ ?_)
      rcases hlayout with rfl | rfl <;> rfl
  | infinite negative =>
      refine absurd h (hnull _ ?_)
      rcases hlayout with rfl | rfl <;> cases negative <;> rfl
  | finite negative mantissa place =>
      refine spells_number (fun c => Layout.isNumberChar_of_mem_write ?_ ?_) h
      · rcases hlayout with rfl | rfl <;> exact forall_mem_of_all (by decide)
      · rcases hlayout with rfl | rfl <;> exact forall_mem_of_all (by decide)

theorem spells_float {x : Float} (h : ReadsBack x) :
    ∃ numeral, Spells (doubleLayout.writeFloat x).toList (.number numeral) ∧
      numeral.toInt? = none ∧ numeral.toFloat? = some x := by
  obtain ⟨value, count, hparse, hread⟩ := read?_eq_some h
  obtain ⟨tree, htree, heq⟩ := Option.map_eq_some_iff.mp hread
  obtain ⟨rfl, -⟩ := Prod.mk.inj heq
  obtain ⟨hspells, numeral, rfl⟩ := spells_written (.inl rfl) hparse (by rintro rfl; cases htree)
  refine ⟨numeral, by rwa [Layout.writeFloat, String.toList_ofList], ?_⟩
  simp only [toTree?] at htree
  split at htree
  · cases htree
  · rename_i hint
    obtain ⟨y, hy, heq⟩ := Option.map_eq_some_iff.mp htree
    obtain rfl := Tree.float.inj heq
    exact ⟨hint, hy⟩

theorem spells_single {x : Float32} (h : SingleReadsBack x) :
    ∃ numeral, Spells (singleLayout.writeFloat32 x).toList (.number numeral) ∧
      ∀ levels, Place.single ⟨levels, .number numeral⟩ = pure x := by
  obtain ⟨value, count, hparse, hread⟩ := read?_eq_some h
  obtain ⟨hspells, numeral, rfl⟩ := spells_written (.inr rfl) hparse (by rintro rfl; cases hread)
  refine ⟨numeral, by rwa [Layout.writeFloat32, String.toList_ofList], fun levels => ?_⟩
  simp only [Source.single, Place.single] at hread ⊢
  cases hint : numeral.toInt? with
  | some i =>
      rw [hint] at hread
      obtain ⟨rfl, -⟩ := Prod.mk.inj (Option.some.inj hread)
      rfl
  | none =>
      rw [hint] at hread
      obtain ⟨y, hy, heq⟩ := Option.map_eq_some_iff.mp hread
      obtain ⟨rfl, -⟩ := Prod.mk.inj heq
      simp only [hy]
      rfl

end Spelling

section Trees

variable {fuel level : Nat} {part next : String} {rest : List String} {item : Json}

theorem parseItems_last (hs : Spells part.toList item)
    (hf : 2 * (inside level "]" [part]).length < fuel) (done : List Json) (tail : List Char) :
    parseItems fuel done (inside level "]" [part] ++ tail) =
      some (array (done.reverse ++ [item]), tail) := by
  obtain ⟨fuel, rfl⟩ : ∃ f, fuel = f + 1 := ⟨fuel - 1, by omega⟩
  rw [inside_single] at hf ⊢
  simp only [List.length_append] at hf
  rw [List.append_assoc, List.append_assoc, parseItems, hs _ _ (ends_newLine _ _) (by
    have hclosing : "]".toList.length = 1 := rfl
    omega)]
  simp only [skipBlanks_append fun c => @isBlank_of_mem_newLine level c, ← List.reverse_cons]
  rfl

theorem parseItems_next (hs : Spells part.toList item)
    (hf : 2 * (inside level "]" (part :: next :: rest)).length < fuel) {items : List Json}
    {tail : List Char}
    (hrest : ∀ fuel done, 2 * (inside level "]" (next :: rest)).length < fuel →
      parseItems fuel done (inside level "]" (next :: rest) ++ tail) =
        some (array (done.reverse ++ items), tail)) (done : List Json) :
    parseItems fuel done (inside level "]" (part :: next :: rest) ++ tail) =
      some (array (done.reverse ++ item :: items), tail) := by
  obtain ⟨fuel, rfl⟩ : ∃ f, fuel = f + 1 := ⟨fuel - 1, by omega⟩
  rw [inside_cons] at hf ⊢
  simp only [List.length_append, List.length_cons] at hf
  rw [List.append_assoc, List.cons_append, parseItems, hs _ _ (ends_comma _) (by omega)]
  simp only [skipBlanks_cons (show isBlank ',' = false by decide)]
  rw [List.append_assoc, parseItems_blanks fun c => isBlank_of_mem_newLine, hrest _ _ (by omega),
    List.reverse_cons, List.append_assoc, List.singleton_append]

-- A member is read up to what follows its value: a comma or the end of the object.
theorem parseMembers_member {key : String} {field : Tree × Tree} (hkey : field.1 = .text key)
    (hs : Spells (pretty level field.2).toList item) (done : List (List Piece × Json))
    {tail : List Char} (hends : Ends tail) (hf : 2 * (pretty level field.2).toList.length < fuel) :
    (∀ rest, skipBlanks tail = ',' :: rest →
      parseMembers (fuel + 1) done ((member level field).toList ++ tail) =
        parseMembers fuel ((key.toList.map piece, item) :: done) rest) ∧
    ∀ rest, skipBlanks tail = '\x7d' :: rest →
      parseMembers (fuel + 1) done ((member level field).toList ++ tail) =
        some (object ((key.toList.map piece, item) :: done).reverse, rest) := by
  have htext : (member level field).toList ++ tail =
      '"' :: (key.toList.flatMap escapeChar ++ '"' :: ':' :: ' ' ::
        ((pretty level field.2).toList ++ tail)) := by
    simp only [member, hkey, keyText, quoted, String.toList_append, String.toList_ofList,
      List.cons_append, List.append_assoc]
    rfl
  have hvalue : parseValue fuel (' ' :: ((pretty level field.2).toList ++ tail)) =
      some (item, tail) := by
    rw [← List.singleton_append, parseValue_blanks (forall_mem_of_all (by decide)), hs _ _ hends hf]
  constructor <;> intro rest hrest <;>
  · rw [htext, parseMembers, skipBlanks_cons (by decide)]
    simp only [parsePieces_escaped, List.reverse_nil, List.nil_append,
      skipBlanks_cons (show isBlank ':' = false by decide), hvalue, hrest]

theorem length_member (level : Nat) (field : Tree × Tree) :
    (pretty level field.2).toList.length + 2 ≤ (member level field).toList.length := by
  have hcolon : ": ".toList.length = 2 := rfl
  simp only [member, String.toList_append, List.length_append]
  omega

theorem parseMembers_last {key : String} {field : Tree × Tree} (hkey : field.1 = .text key)
    (hs : Spells (pretty (level + 1) field.2).toList item)
    (hf : 2 * (inside level "\x7d" [member (level + 1) field]).length < fuel)
    (done : List (List Piece × Json)) (tail : List Char) :
    parseMembers fuel done (inside level "\x7d" [member (level + 1) field] ++ tail) =
      some (object (done.reverse ++ [(key.toList.map piece, item)]), tail) := by
  have hlength := length_member (level + 1) field
  obtain ⟨fuel, rfl⟩ : ∃ f, fuel = f + 1 := ⟨fuel - 1, by omega⟩
  rw [inside_single] at hf ⊢
  simp only [List.length_append] at hf
  rw [List.append_assoc, List.append_assoc, ← List.reverse_cons]
  refine (parseMembers_member hkey hs done (ends_newLine _ _) (by omega)).2 tail ?_
  exact skipBlanks_append (fun c => isBlank_of_mem_newLine) _

theorem parseMembers_next {key : String} {field : Tree × Tree} (hkey : field.1 = .text key)
    (hs : Spells (pretty (level + 1) field.2).toList item)
    (hf : 2 * (inside level "\x7d" (member (level + 1) field :: next :: rest)).length < fuel)
    {members : List (List Piece × Json)} {tail : List Char}
    (hrest : ∀ fuel done, 2 * (inside level "\x7d" (next :: rest)).length < fuel →
      parseMembers fuel done (inside level "\x7d" (next :: rest) ++ tail) =
        some (object (done.reverse ++ members), tail)) (done : List (List Piece × Json)) :
    parseMembers fuel done (inside level "\x7d" (member (level + 1) field :: next :: rest) ++ tail) =
      some (object (done.reverse ++ (key.toList.map piece, item) :: members), tail) := by
  have hlength := length_member (level + 1) field
  obtain ⟨fuel, rfl⟩ : ∃ f, fuel = f + 1 := ⟨fuel - 1, by omega⟩
  rw [inside_cons] at hf ⊢
  simp only [List.length_append, List.length_cons] at hf
  rw [List.append_assoc, List.cons_append,
    (parseMembers_member hkey hs done (ends_comma _) (by omega)).1 _
      (skipBlanks_cons (by decide) _),
    List.append_assoc, parseMembers_blanks fun c => isBlank_of_mem_newLine, hrest _ _ (by omega),
    List.reverse_cons, List.append_assoc, List.singleton_append]

theorem spells_of_step {cs : List Char} {value : Json} (hf : ∀ fuel rest, Ends rest →
    2 * cs.length ≤ fuel → parseValue (fuel + 1) (cs ++ rest) = some (value, rest)) :
    Spells cs value := by
  intro fuel rest hends hlt
  obtain ⟨fuel, rfl⟩ : ∃ f, fuel = f + 1 := ⟨fuel - 1, by omega⟩
  exact hf fuel rest hends (by omega)

theorem spells_text (s : String) : Spells (quoted s).toList (string (s.toList.map piece)) := by
  refine spells_of_step fun fuel rest _ _ => ?_
  rw [quoted, String.toList_ofList, List.cons_append, List.cons_append, parseValue,
    skipBlanks_cons (by decide), List.append_assoc]
  simp only [List.singleton_append, parsePieces_escaped, Option.map_some, List.reverse_nil,
    List.nil_append]

-- A block stands for what the loop over its parts makes of its inside.
theorem spells_block {opening closing : String} {bracket : Char} {parts : List String}
    {value : Json} {loop : Nat → List Char → Option (Json × List Char)}
    (hopening : opening.toList = [bracket])
    (hvalue : ∀ {fuel cs result}, loop fuel cs = some result →
      parseValue (fuel + 1) (bracket :: cs) = some result)
    (hblanks : ∀ {blanks}, (∀ c ∈ blanks, isBlank c = true) →
      ∀ fuel cs, loop fuel (blanks ++ cs) = loop fuel cs)
    (hne : parts ≠ []) (h : ∀ fuel tail, 2 * (inside level closing parts).length < fuel →
      loop fuel (inside level closing parts ++ tail) = some (value, tail)) :
    Spells (block opening closing level parts).toList value := by
  refine spells_of_step fun fuel rest _ hf => ?_
  rw [toList_block hne, hopening] at hf ⊢
  simp only [List.length_append, List.length_singleton] at hf
  rw [List.append_assoc, List.append_assoc]
  refine hvalue ?_
  show loop fuel ((newLine (level + 1)).toList ++ _) = _
  rw [hblanks fun c => isBlank_of_mem_newLine]
  exact h fuel rest (by omega)

mutual
-- What a tree is written as is read as the same, wherever it stands.
theorem spells_pretty (tree : Tree) (level : Nat) (h : tree.Legible ReadsBack SingleReadsBack) :
    Spells (pretty level tree).toList (ofTree tree) := by
  match tree with
  | .null =>
      simp only [pretty, leafText, ofTree]
      exact spells_of_step fun fuel rest _ _ => rfl
  | .bool true =>
      simp only [pretty, leafText, ofTree]
      exact spells_of_step fun fuel rest _ _ => rfl
  | .bool false =>
      simp only [pretty, leafText, ofTree]
      exact spells_of_step fun fuel rest _ _ => rfl
  | .int i =>
      obtain ⟨numeral, hs, -⟩ := spells_int h.1 h.2
      rw [ofTree, valueIn_of_spells hs]
      exact hs
  | .float x =>
      obtain ⟨numeral, hs, -⟩ := spells_float h
      rw [ofTree, valueIn_of_spells hs]
      exact hs
  | .single x =>
      obtain ⟨numeral, hs, -⟩ := spells_single h
      rw [ofTree, valueIn_of_spells hs]
      exact hs
  | .text s => exact spells_text s
  | .seq [] =>
      rw [pretty, prettyAll, ofTree, ofTrees, List.reverse_nil, toList_block_nil]
      exact spells_of_step fun fuel rest _ _ => rfl
  | .map [] =>
      rw [pretty, prettyFields, ofTree, ofFields, List.reverse_nil, toList_block_nil]
      exact spells_of_step fun fuel rest _ _ => rfl
  | .seq (item :: items) =>
      have hparts := prettyAll_eq (level + 1) [] (item :: items)
      rw [List.reverse_nil, List.nil_append] at hparts
      rw [pretty, hparts, ofTree]
      refine spells_block rfl parseValue_array (fun hblank fuel => parseItems_blanks hblank fuel [])
        (List.cons_ne_nil _ _) fun fuel tail hf => ?_
      exact parseItems_pretty (item :: items) (List.cons_ne_nil _ _) level h fuel [] tail hf
  | .map (field :: fields) =>
      have hparts := prettyFields_eq (level + 1) [] (field :: fields)
      rw [List.reverse_nil, List.nil_append] at hparts
      rw [pretty, hparts, ofTree]
      refine spells_block rfl parseValue_object
        (fun hblank fuel => parseMembers_blanks hblank fuel []) (List.cons_ne_nil _ _)
        fun fuel tail hf => ?_
      exact parseMembers_pretty (field :: fields) (List.cons_ne_nil _ _) level h fuel [] tail hf

theorem parseItems_pretty (items : List Tree) (hne : items ≠ []) (level : Nat)
    (h : Tree.LegibleAll ReadsBack SingleReadsBack items) (fuel : Nat) (done : List Json)
    (tail : List Char)
    (hf : 2 * (inside level "]" (items.map (pretty (level + 1)))).length < fuel) :
    parseItems fuel done (inside level "]" (items.map (pretty (level + 1))) ++ tail) =
      some (array (done.reverse ++ ofTrees items), tail) := by
  match items with
  | [] => exact absurd rfl hne
  | [item] => exact parseItems_last (spells_pretty item _ h.1) hf done tail
  | item :: next :: rest =>
      exact parseItems_next (spells_pretty item _ h.1) hf
        (fun fuel done => parseItems_pretty (next :: rest) (List.cons_ne_nil _ _) level h.2 fuel
          done tail) done

theorem parseMembers_pretty (fields : List (Tree × Tree)) (hne : fields ≠ []) (level : Nat)
    (h : Tree.LegibleFields ReadsBack SingleReadsBack fields) (fuel : Nat)
    (done : List (List Piece × Json)) (tail : List Char)
    (hf : 2 * (inside level "\x7d" (fields.map (member (level + 1)))).length < fuel) :
    parseMembers fuel done (inside level "\x7d" (fields.map (member (level + 1))) ++ tail) =
      some (object (done.reverse ++ ofFields fields), tail) := by
  match fields with
  | [] => exact absurd rfl hne
  | [(key, value)] =>
      obtain ⟨⟨s, rfl⟩, hvalue, -⟩ := h
      exact @parseMembers_last _ _ _ s (.text s, value) rfl (spells_pretty value _ hvalue) hf done
        tail
  | (key, value) :: next :: rest =>
      obtain ⟨⟨s, rfl⟩, hvalue, hrest⟩ := h
      exact @parseMembers_next _ _ _ _ _ s (.text s, value) rfl (spells_pretty value _ hvalue) hf
        _ _
        (fun fuel done => parseMembers_pretty (next :: rest) (List.cons_ne_nil _ _) level hrest fuel
          done tail) done
end

end Trees

end Dataflow.Json
