/-
The parts of links: labels in brackets, destinations and titles, and the
definitions made of them. What stands in a definition may go on in the next
line, behind the marks of the containers around it.
-/
import Mdx.Markdown.Line
import Mdx.Text.Fold

namespace Mdx.Markdown

/-- How many characters at the start of a line are marks of containers, or none if the line does
not go on with what the line before it holds. -/
abbrev LineJoin := List Char → Option Nat

/-- Lines whose marks are already taken away. -/
def plainLines : LineJoin := fun _ => some 0

/-- The text behind the line end whose first character is `c`. -/
def afterBreak (c : Char) (cs : List Char) : List Char :=
  if c == '\r' && cs.head? == some '\n' then cs.drop 1 else cs

theorem length_afterBreak_le (c : Char) (cs : List Char) :
    (afterBreak c cs).length ≤ cs.length := by
  unfold afterBreak
  split <;> simp

/-- The text behind blanks with at most one line end among them, and whether there is one; `broken`
if it is already read. -/
def skipBlankRun? (join : LineJoin) (broken : Bool) : List Char → Option (Bool × List Char)
  | [] => some (broken, [])
  | c :: cs =>
    if isLineSpace c then skipBlankRun? join broken cs
    else if isLineBreak c then
      if broken then none
      else
        match join (afterBreak c cs) with
        | none => none
        | some marks => skipBlankRun? join true ((afterBreak c cs).drop marks)
    else some (broken, c :: cs)
  termination_by cs => cs.length
  decreasing_by
    · simp
    · have := length_afterBreak_le c cs
      simp only [List.length_drop, List.length_cons]
      omega

/-- The text of a label up to its closing bracket, where each run of blanks is one space, and the
text behind it. A label holds no bracket that is not escaped. Blanks, escapes and the bytes of
characters beyond ASCII make its weight, which is below a thousand. Each round takes a character at
least, so `fuel` beyond the characters left changes nothing. -/
def labelText? (join : LineJoin) :
    (fuel weight : Nat) → List Char → Option (List Char × List Char)
  | 0, _, _ => none
  | _ + 1, _, [] => none
  | fuel + 1, weight, c :: cs =>
    if c == ']' then if weight < 1000 then some ([], cs) else none
    else if c == '[' then none
    else if c == '\\' then
      match cs with
      | [] => none
      | d :: rest =>
        (labelText? join fuel (weight + 1 + d.utf8Size) rest).map fun (a, b) => (c :: d :: a, b)
    else if isAsciiBlank c then
      match skipBlankRun? join false (c :: cs) with
      | none => none
      | some (_, rest) =>
        (labelText? join fuel (weight + (cs.length + 1 - rest.length)) rest).map fun (a, b) =>
          (' ' :: a, b)
    else
      (labelText? join fuel (weight + if c.toNat < 0x80 then 0 else c.utf8Size) cs).map
        fun (a, b) => (c :: a, b)

/-- What labels are compared by: case and the blanks at the ends do not matter. -/
def labelKey (label : List Char) : List Char :=
  let isEdge (c : Char) : Bool := c == ' ' || c == '\t' || isLineBreak c
  foldCase (trimRightBy isEdge (label.dropWhile isEdge))

/-- A label at the start of a text, as it is compared, and the text behind it. -/
def readLabel? (join : LineJoin) (cs : List Char) : Option (List Char × List Char) :=
  match cs with
  | '[' :: rest => do
    let (label, after) ← labelText? join (rest.length + 1) 0 rest
    let key := labelKey label
    if key.isEmpty then none else some (key, after)
  | _ => none

/-- The text behind a destination that is not in angle brackets; its parentheses pair up, and not
more than thirty-three are open at once. -/
def skipBareDestination? (depth : Nat) : List Char → Option (List Char)
  | [] => if depth = 0 then some [] else none
  | '\\' :: d :: cs =>
    if isAsciiPunctuation d then skipBareDestination? depth cs
    else skipBareDestination? depth (d :: cs)
  | c :: cs =>
    if c.toNat ≤ 32 then if depth = 0 then some (c :: cs) else none
    else if c == '(' then if depth ≤ 32 then skipBareDestination? (depth + 1) cs else none
    else if c == ')' then
      match depth with
      | 0 => some (c :: cs)
      | depth + 1 => skipBareDestination? depth cs
    else skipBareDestination? depth cs

/-- The text behind a destination in angle brackets, the first of which is before the text. -/
def skipAngleDestination? : List Char → Option (List Char)
  | [] => none
  | '\\' :: d :: cs =>
    if isAsciiPunctuation d then skipAngleDestination? cs else skipAngleDestination? (d :: cs)
  | c :: cs =>
    if c == '>' then some cs
    else if c == '<' || isLineBreak c then none
    else skipAngleDestination? cs

/-- The text behind a destination, which may be empty. -/
def skipDestination? (cs : List Char) : Option (List Char) :=
  match cs with
  | '<' :: rest => skipAngleDestination? rest
  | _ => skipBareDestination? 0 cs

/-- The text behind a title whose opening mark is before the text. -/
def skipTitleBody? (join : LineJoin) (stop : Char) : List Char → Option (List Char)
  | [] => none
  | c :: cs =>
    if c == stop then some cs
    else if stop == ')' && c == '(' then none
    else if c == '\\' then
      match cs with
      | [] => none
      | d :: rest =>
        if isLineBreak d then skipTitleBody? join stop (d :: rest) else skipTitleBody? join stop rest
    else if isLineBreak c then
      match join (afterBreak c cs) with
      | none => none
      | some marks => skipTitleBody? join stop ((afterBreak c cs).drop marks)
    else skipTitleBody? join stop cs
  termination_by cs => cs.length
  decreasing_by
    · simp
    · simp only [List.length_cons]
      omega
    · have := length_afterBreak_le c cs
      simp only [List.length_drop, List.length_cons]
      omega
    · simp

/-- The text behind a title. -/
def skipTitle? (join : LineJoin) (cs : List Char) : Option (List Char) :=
  match cs with
  | '\x22' :: rest => skipTitleBody? join '\x22' rest
  | '\x27' :: rest => skipTitleBody? join '\x27' rest
  | '(' :: rest => skipTitleBody? join ')' rest
  | _ => none

/-- The lines of a title inside a paragraph. An escape at the start of a line has lost its mark. -/
def titleLines : LineJoin := fun cs =>
  let blanks := (cs.takeWhile isIndent).length
  match cs.drop blanks with
  | '\\' :: d :: _ => some (if isAsciiPunctuation d then blanks + 1 else blanks)
  | _ => some blanks

/-- The text behind the target of a link, whose parenthesis is before the text: a destination and
perhaps a title. -/
def skipTarget? (cs : List Char) : Option (List Char) := do
  let after ← skipDestination? (cs.dropWhile isAsciiBlank)
  let inner := after.dropWhile isAsciiBlank
  let close := ((skipTitle? titleLines inner).map (·.dropWhile isAsciiBlank)).getD inner
  match close with
  | ')' :: rest => some rest
  | _ => none

/-- A definition of a label at the start of a text: the label as it is compared, and the text
behind the definition. Labels and titles go on by `texts`, the blanks between the parts by `blanks`.
A title that is not followed by the end of its line is none; it then has to be on a line of its
own. -/
def readDefinition? (texts blanks : LineJoin) (cs : List Char) :
    Option (List Char × List Char) := do
  let skipBlanks? (cs : List Char) := (skipBlankRun? blanks false cs).filter (!·.2.isEmpty)
  let (key, afterLabel) ← readLabel? texts cs
  match afterLabel with
  | ':' :: rest =>
    let (_, start) ← skipBlanks? rest
    let after ← skipDestination? start
    if after.length == start.length then none
    else
      match skipBlanks? after with
      | none => some (key, after)
      | some (broken, inner) =>
        let plain := if broken then some (key, after) else none
        if inner.length == after.length then none
        else
          match skipTitle? texts inner with
          | some rest => if (blankLine? rest).isSome then some (key, rest) else plain
          | none => plain
  | _ => none

end Mdx.Markdown
