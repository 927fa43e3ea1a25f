import Dataflow.Yaml.Printer
import Mathlib

namespace Dataflow.Yaml

def spaces (count : Nat) : List Char :=
  List.replicate count ' '

-- The inside of single quotes, `margin` blanks being put before what follows line breaks.
def singleInside (margin : Nat) (afterBreak : Bool) : List Char → List Char
  | [] => if afterBreak then spaces margin else []
  | c :: rest =>
      if isBreak c then
        (if !afterBreak && c = '\n' then ['\n'] else []) ++ c :: singleInside margin true rest
      else
        (if afterBreak then spaces margin else []) ++
          ((if c = '\'' then ['\'', '\''] else [c]) ++ singleInside margin false rest)

-- The lines of a block scalar.
def blockLines (margin : Nat) (afterBreak : Bool) : List Char → List Char
  | [] => []
  | c :: rest =>
      if isBreak c then c :: blockLines margin true rest
      else (if afterBreak then spaces margin else []) ++ c :: blockLines margin false rest

-- A text as it is written in one style.
def styledChars (margin : Nat) (style : Style) (cs : List Char) : List Char :=
  match style with
  | .plain => cs
  | .singleQuoted => '\'' :: (singleInside margin false cs ++ ['\''])
  | .doubleQuoted => '"' :: (cs.flatMap doubleQuotedChar ++ ['"'])
  | .literal | .folded => '|' :: ((blockHints cs).toList ++ '\n' :: blockLines margin true cs)

-- The line break that is still to come at the end of a text.
def lineEnd (style : Style) (cs : List Char) : List Char :=
  match style with
  | .literal | .folded => if cs.getLast?.all isBreak then [] else ['\n']
  | _ => ['\n']

-- A tree without parts that stands below a margin of the given width.
def leafChars (margin : Nat) (simpleKey : Bool) : Tree → List Char
  | .null => "null".toList
  | .bool truth => (if truth then "true" else "false").toList
  | .int i => (toString i).toList
  | .float x => (doubleLayout.writeFloat x).toList
  | .single x => (singleLayout.writeFloat32 x).toList
  | .text s => styledChars (margin + 2) (chosenStyle (traits s.toList) simpleKey s.toList) s.toList
  | .seq _ => ['[', ']']
  | .map _ => ['\x7b', '\x7d']

-- The same with the end of its line.
def leafLine (margin : Nat) : Tree → List Char
  | .text s =>
      leafChars margin false (.text s) ++
        lineEnd (chosenStyle (traits s.toList) false s.toList) s.toList
  | tree => leafChars margin false tree ++ ['\n']

-- A key that stands at the margin with its value, `near` being the value as it follows
-- a key of one line and `far` as it follows a colon at the margin.
def fieldChars (margin : Nat) (key : Tree) (near far : List Char) : List Char :=
  if isSimpleKey key then leafChars margin true key ++ ':' :: near
  else '?' :: ' ' :: (leafLine margin key ++ (spaces margin ++ ':' :: far))

mutual
-- A tree after a hyphen, a question mark or a colon that stands at the margin.
def afterMark (margin : Nat) : Tree → List Char
  | .seq (item :: rest) =>
      ' ' :: '-' :: (afterMark (margin + 2) item ++ itemLines (margin + 2) rest)
  | .map ((key, value) :: rest) =>
      ' ' :: (fieldChars (margin + 2) key (afterKey (margin + 2) value)
        (afterMark (margin + 2) value) ++ fieldLines (margin + 2) rest)
  | leaf => ' ' :: leafLine margin leaf

-- A tree after a key on one line and its colon.
def afterKey (margin : Nat) : Tree → List Char
  | .seq (item :: rest) => '\n' :: itemLines margin (item :: rest)
  | .map (field :: rest) => '\n' :: fieldLines (margin + 2) (field :: rest)
  | leaf => ' ' :: leafLine margin leaf

def itemLines (margin : Nat) : List Tree → List Char
  | [] => []
  | item :: rest => spaces margin ++ '-' :: (afterMark margin item ++ itemLines margin rest)

def fieldLines (margin : Nat) : List (Tree × Tree) → List Char
  | [] => []
  | (key, value) :: rest =>
      spaces margin ++ (fieldChars margin key (afterKey margin value) (afterMark margin value) ++
        fieldLines margin rest)
end

theorem anyNeighbours_cons {test : Char → Char → Bool} {a : Char} {rest : List Char}
    (h : anyNeighbours test (a :: rest) = false) :
    (∀ b ∈ rest.head?, test a b = false) ∧ anyNeighbours test rest = false := by
  cases rest with
  | nil => exact ⟨nofun, rfl⟩
  | cons b rest =>
      rw [anyNeighbours, Bool.or_eq_false_iff] at h
      exact ⟨fun d hd => Option.mem_some_iff.mp hd ▸ h.1, h.2⟩

theorem anyNeighbours_append {test : Char → Char → Bool} {front rest : List Char}
    (h : anyNeighbours test (front ++ rest) = false) : anyNeighbours test rest = false := by
  induction front with
  | nil => exact h
  | cons c front ih => exact ih (anyNeighbours_cons h).2

namespace Sheet

-- A sheet on which the next line begins after these characters, last first: the line
-- break is among them or still to come.
def Closes (sheet : Sheet) (chars : List Char) : Prop :=
  ∀ margin, sheet.margin margin = ⟨spaces margin ++ chars, margin, true, true⟩

theorem putAll_eq (sheet : Sheet) (cs : List Char) :
    sheet.putAll cs =
      { sheet with chars := cs.reverse ++ sheet.chars, column := sheet.column + cs.length } := by
  induction cs generalizing sheet with
  | nil => rfl
  | cons c rest ih =>
      rw [putAll, List.foldl_cons, ← putAll, ih]
      simp only [put, List.reverse_cons, List.append_assoc, List.singleton_append, List.length_cons,
        Nat.add_assoc, Nat.add_comm 1]

theorem closes_of_not_fresh {sheet : Sheet} (h : sheet.fresh = false) :
    sheet.Closes ('\n' :: sheet.chars) := by
  intro margin
  simp only [Sheet.margin, h, Bool.not_false, Bool.true_or, if_true, putAll_eq, putBreak,
    Nat.sub_zero, List.reverse_replicate, List.length_replicate, Nat.zero_add, spaces]

-- A text whose line is still to be broken.
theorem closes_line {sheet : Sheet} (hf : sheet.fresh = false) {body before : List Char}
    (hc : sheet.chars = body.reverse ++ before) :
    sheet.Closes ((body ++ ['\n']).reverse ++ before) := by
  have h := closes_of_not_fresh hf
  rw [hc] at h
  rw [List.reverse_append]
  exact h

theorem closes_of_broken {sheet : Sheet} (hf : sheet.fresh = true) (hs : sheet.spaced = true)
    (hc : sheet.column = 0) : sheet.Closes sheet.chars := by
  intro margin
  simp only [Sheet.margin, hf, hs, hc, Bool.not_true, Bool.false_or, Bool.and_false,
    Bool.false_eq_true, if_false, Nat.not_lt_zero, decide_false, putAll_eq, Nat.sub_zero,
    List.reverse_replicate, List.length_replicate, Nat.zero_add, spaces]

theorem margin_of_broken {sheet : Sheet} (hf : sheet.fresh = true) (hc : sheet.column = 0)
    {margin : Nat} (hm : 0 < margin) :
    sheet.margin margin = ⟨spaces margin ++ sheet.chars, margin, true, true⟩ := by
  have hne : ¬0 = margin := by omega
  simp only [Sheet.margin, hf, hc, Bool.not_true, hne, decide_false,
    Bool.false_and, Bool.or_false, Nat.not_lt_zero, Bool.false_eq_true, if_false, putAll_eq,
    Nat.sub_zero, List.reverse_replicate, List.length_replicate, Nat.zero_add, spaces]

-- One blank leads from a mark to the margin two columns further in.
theorem margin_afterMark {sheet : Sheet} {margin : Nat} (hf : sheet.fresh = true)
    (hc : sheet.column = margin + 1) :
    sheet.margin (margin + 2) = ⟨' ' :: sheet.chars, margin + 2, true, true⟩ := by
  have hlt : ¬margin + 2 < margin + 1 := by omega
  have hne : ¬margin + 1 = margin + 2 := by omega
  have hone : margin + 2 - (margin + 1) = 1 := by omega
  simp only [Sheet.margin, hf, hc, Bool.not_true, hne, hlt, decide_false,
    Bool.false_and, Bool.or_false, Bool.false_eq_true, if_false, putAll_eq, hone]
  rfl

theorem chars_mark (sheet : Sheet) (text : String) (spaced fresh : Bool) :
    (sheet.mark text false spaced fresh).chars = text.toList.reverse ++ sheet.chars := by
  simp only [mark, Bool.false_and, Bool.false_eq_true, if_false, putAll_eq]

theorem mark_of_spaced {sheet : Sheet} (h : sheet.spaced = true) (text : String)
    (needsBlank spaced fresh : Bool) :
    sheet.mark text needsBlank spaced fresh =
      ⟨text.toList.reverse ++ sheet.chars, sheet.column + text.toList.length, spaced,
        sheet.fresh && fresh⟩ := by
  simp only [mark, h, Bool.not_true, Bool.and_false, Bool.false_eq_true, if_false, putAll_eq]

theorem chars_mark_of_not_spaced {sheet : Sheet} (h : sheet.spaced = false) (text : String)
    (spaced fresh : Bool) :
    (sheet.mark text true spaced fresh).chars = text.toList.reverse ++ ' ' :: sheet.chars := by
  simp only [mark, h, Bool.not_false, Bool.and_true, if_true, putAll_eq, put]

end Sheet

end Dataflow.Yaml
