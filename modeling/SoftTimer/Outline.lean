/-!
# Outlines of values

Diagnostics show a value as an outline: a word, a name around one value, or a name with labelled
fields.  An outline is written on one line or as a block with one field a line.

Main definitions:

- `Outline.line`: the outline on one line, such as `Span(Range { from: 1, .. })`.
- `Outline.block`: the same outline over several lines, four blanks deeper at each level, with a
  comma after every value.
-/

namespace SoftTimer

mutual

/-- What is shown of a value. -/
inductive Outline where
  /-- A single word or number. -/
  | word (text : String)
  /-- A name around one value. -/
  | wrapped (name : String) (inner : Outline)
  /-- A name with labelled fields. -/
  | record (name : String) (fields : OutlineFields)

/-- The fields of an outline, in order. -/
inductive OutlineFields where
  /-- No further field is shown; when `elided`, the value has more of them. -/
  | done (elided : Bool)
  /-- One field and those after it. -/
  | field (label : String) (value : Outline) (rest : OutlineFields)

end

namespace Outline

/-- The outline of an optional value. -/
def ofOption : Option Outline → Outline
  | none => .word "None"
  | some inner => .wrapped "Some" inner

/-- The outline of a truth value. -/
def ofBool (b : Bool) : Outline :=
  .word (if b then "true" else "false")

/-- The outline of a natural number. -/
def ofNat (n : Nat) : Outline :=
  .word n.repr

/-! ## On one line -/

mutual

/-- An outline on one line. -/
def line : Outline → String
  | .word text => text
  | .wrapped name inner => name ++ "(" ++ inner.line ++ ")"
  | .record name fields => name ++ " \x7b " ++ ", ".intercalate (fieldTexts fields) ++ " \x7d"

/-- The texts of the fields of an outline on one line. -/
def fieldTexts : OutlineFields → List String
  | .done elided => if elided then [".."] else []
  | .field label value rest => (label ++ ": " ++ value.line) :: fieldTexts rest

end

/-! ## As a block -/

/-- Lines moved four blanks to the right. -/
def indent (lines : List String) : List String :=
  lines.map ("    " ++ ·)

/-- Lines with a text put before the first one. -/
def labelled (text : String) : List String → List String
  | [] => []
  | first :: rest => (text ++ first) :: rest

/-- Lines with a comma put after the last one. -/
def terminated : List String → List String
  | [] => []
  | [last] => [last ++ ","]
  | first :: rest => first :: terminated rest

mutual

/-- The lines of an outline as a block. -/
def blockLines : Outline → List String
  | .word text => [text]
  | .wrapped name inner => (name ++ "(") :: (indent (terminated inner.blockLines) ++ [")"])
  | .record name fields => (name ++ " \x7b") :: (indent (fieldLines fields) ++ ["\x7d"])

/-- The lines of the fields of an outline as a block. -/
def fieldLines : OutlineFields → List String
  | .done elided => if elided then [".."] else []
  | .field label value rest =>
    terminated (labelled (label ++ ": ") value.blockLines) ++ fieldLines rest

end

/-- An outline over several lines. -/
def block (o : Outline) : String :=
  "\n".intercalate o.blockLines

end Outline
end SoftTimer
