/-
The plain text of inline markdown: what is left of it when the marks of
emphasis, links, images and code are taken away, markup inside the line is
dropped, and escapes and character references are resolved.
-/
import Mdx.Markdown.Entity
import Mdx.Markdown.Html
import Mdx.Markdown.Link

namespace Mdx.Markdown

/-- A part of inline content. -/
inductive Atom where
  /-- Text that stays. -/
  | text (cs : List Char)
  /-- The text of code, of a character reference or of a link: nothing is added to it or taken from
  it. -/
  | fixed (cs : List Char)
  /-- A run of marks that may be emphasis. -/
  | run (mark : Char) (length : Nat) (canOpen canClose : Bool)
  /-- A line end that is escaped. -/
  | escapedEnd

/-- Whether a run of marks between two characters can open emphasis. -/
def canOpen (mark : Char) (length : Nat) (previous next : Option Char) : Bool :=
  match next with
  | none => false
  | some n =>
    if isBlank n then false
    else if mark == '*' && !isPunctuation n then true
    else if mark == '~' && 1 < length then true
    else if mark == '~' && previous == some '~' && !isPunctuation n then true
    else previous.all fun p => isBlank p || isPunctuation p

/-- Whether a run of marks between two characters can close emphasis. -/
def canClose (mark : Char) (length : Nat) (previous next : Option Char) : Bool :=
  match previous with
  | none => false
  | some p =>
    if isBlank p then false
    else if (mark == '*' || (mark == '~' && 1 < length)) && !isPunctuation p then true
    else if mark == '~' && p == '~' then true
    else next.all fun n => isBlank n || isPunctuation n

/-- A run of marks that waits to be closed, and the text behind it. -/
structure Opener where
  mark : Char
  length : Nat
  count : Nat
  both : Bool
  inner : List Char

/-- Text under a stack of open runs, the innermost first. -/
structure Emphasis where
  base : List Char := []
  stack : List Opener := []
  /-- The outermost open runs that no run of tildes can close any more. -/
  sealedRuns : Nat := 0
  /-- The last part is text that more can be added to. -/
  isText : Bool := false

namespace Emphasis

/-- Adds text. -/
def push (e : Emphasis) (cs : List Char) : Emphasis :=
  match e.stack with
  | [] => { e with base := e.base ++ cs }
  | o :: stack => { e with stack := { o with inner := o.inner ++ cs } :: stack }

/-- The text of open runs that are never closed. -/
def flatten (stack : List Opener) : List Char :=
  stack.reverse.flatMap fun o => List.replicate o.count o.mark ++ o.inner

/-- The rule for two runs to match: the same mark; and if one of them can both open and close, their
lengths do not add up to a multiple of three unless both are one. Runs of tildes are of one
length. -/
def fits (mark : Char) (length : Nat) (both : Bool) (o : Opener) : Bool :=
  o.mark == mark && (mark != '~' || length == o.length) &&
    ((!both && !o.both) || (length + o.length) % 3 != 0 || length % 3 == 0)

/-- Closes open runs by `count` marks of a run; gives the marks that closed nothing. A run of tildes
that finds none to close seals all that are open. -/
def close (e : Emphasis) (mark : Char) (length : Nat) (both : Bool) (count : Nat) : Emphasis × Nat :=
  match count with
  | 0 => (e, 0)
  | count + 1 =>
    let reach := if mark == '~' then e.stack.length - e.sealedRuns else e.stack.length
    let above := (e.stack.take reach).takeWhile fun o => !fits mark length both o
    match (e.stack.take reach).drop above.length with
    | [] => (if mark == '~' then { e with sealedRuns := e.stack.length } else e, count + 1)
    | o :: _ =>
      let below := e.stack.drop (above.length + 1)
      let matched := max 1 (min (count + 1) o.count)
      let inner := o.inner ++ flatten above
      let outer := { e with stack := below, sealedRuns := min e.sealedRuns below.length }
      let next :=
        if matched < o.count then
          { outer with stack := { o with count := o.count - matched, inner } :: below }
        else outer.push inner
      close next mark length both (count + 1 - matched)
  termination_by count
  decreasing_by omega

/-- Adds an atom. -/
def step (e : Emphasis) : Atom → Emphasis
  | .text cs => { e.push cs with isText := true }
  | .fixed cs => { e.push cs with isText := false }
  | .escapedEnd => { e with isText := false }
  | .run mark length opens closes =>
    let both := opens && closes
    let (e, count) := if closes then e.close mark length both length else (e, length)
    let e := { e with isText := count != 0 }
    if count = 0 then e
    else if opens then { e with stack := ⟨mark, length, count, both, []⟩ :: e.stack }
    else e.push (List.replicate count mark)

end Emphasis

/-- The text of atoms without the marks of emphasis. What is behind the last of them stays if that
one is text. -/
def plainText (atoms : List Atom) (ending : List Char) : List Char :=
  let e := atoms.foldl Emphasis.step {}
  let e := if e.isText then e.push ending else e
  e.base ++ Emphasis.flatten e.stack

/-- The text of a link, whose atoms are given latest first. An escaped line end that ends it is a
backslash if emphasis is looked for in it. -/
def linkText (atoms : List Atom) : List Char :=
  let isRun : Atom → Bool
    | .run .. => true
    | _ => false
  match atoms with
  | .escapedEnd :: inner =>
    plainText inner.reverse [] ++ if inner.any isRun then ['\\'] else []
  | _ => plainText atoms.reverse []

/-- The text up to the first run of exactly `length` backquotes, and the text behind that run;
`current` backquotes are before the text. -/
def splitCode? (length : Nat) : (current : Nat) → List Char → Option (List Char × List Char)
  | current, [] => if current == length then some ([], []) else none
  | current, c :: cs =>
    if c == '\x60' then
      (splitCode? length (current + 1) cs).map fun (a, b) => ('\x60' :: a, b)
    else if current == length then some ([], c :: cs)
    else (splitCode? length 0 cs).map fun (a, b) => (c :: a, b)

/-- The text of a code span: line ends are spaces, and one space at each end is dropped if there
are both and not only spaces. -/
def codeText (cs : List Char) : List Char :=
  let flat := cs.map fun c => if isLineBreak c then ' ' else c
  if !flat.all (· == ' ') && flat.head? == some ' ' && flat.getLast? == some ' ' then
    (flat.drop 1).dropLast
  else flat

/-- An open bracket: the atoms before it, latest first, and the text behind it. -/
structure Bracket where
  isImage : Bool
  isActive : Bool
  before : List Atom
  source : List Char

/-- The mark of a bracket that opens nothing. -/
def Bracket.literal (b : Bracket) : Atom := .text (if b.isImage then ['!', '['] else ['['])

/-- The text behind a link whose closing bracket is before the text, given its own text as a label,
and whether the link has a target of its own: a target in parentheses, a label that is defined, or
nothing if the text itself is. A bracket that is escaped opens a label as well. The closing bracket
is not the end of the link if it is the last of its line and has an `ending`. -/
def skipLinkEnd? (defined : List (List Char)) (ending label cs : List Char) :
    Option (List Char × Bool) :=
  let target := match cs with
    | '(' :: rest => skipTarget? rest
    | _ => none
  match target with
  | some rest => some (rest, true)
  | none =>
    let tail := match cs with
      | '\\' :: '[' :: rest => '[' :: rest
      | _ => cs
    match readLabel? plainLines tail with
    | some (key, after) => if defined.contains key then some (after, false) else none
    | none =>
      match readLabel? plainLines ('[' :: label ++ [']']) with
      | none => none
      | some (key, after) =>
        if after.isEmpty && defined.contains key && (!cs.isEmpty || ending.isEmpty) then
          some (if "[]".toList.isPrefixOf tail then tail.drop 2 else cs, false)
        else none

/-- One blank that is text. -/
def isSpaceAtom : Atom → Bool
  | .text [c] => isLineSpace c
  | _ => false

/-- Inline content: its text without the marks of containers, the lines behind the mark of a quote
by the characters left at the line ends before them, and what is behind the content on its last
line. -/
structure Content where
  text : List Char
  quoted : List Nat := []
  ending : List Char := []

/-- Reads inline content behind the atoms, latest first, and inside the open brackets. The blanks
around a line end are dropped. Each round takes a character at least, so `fuel` beyond the
characters left changes nothing. -/
def readAtoms (defined : List (List Char)) (content : Content) :
    (fuel : Nat) → (previous : Option Char) → List Atom → List Bracket → List Char → List Atom
  | fuel, previous, atoms, brackets, c :: cs =>
    match fuel with
    | 0 => closeAll atoms brackets
    | fuel + 1 =>
      let proceed := readAtoms defined content fuel
      let plain (_ : Unit) := proceed (some c) (.text [c] :: atoms) brackets cs
      match c with
      | '\\' =>
        match cs with
        | d :: rest =>
          if isAsciiPunctuation d then proceed (some d) (.text [d] :: atoms) brackets rest
          else if isLineBreak d then
            proceed (some '\n') (.escapedEnd :: atoms) brackets
              ((afterBreak d rest).dropWhile isIndent)
          else plain ()
        | [] => plain ()
      | '\x60' =>
        let marks := c :: cs.takeWhile (· == '\x60')
        let after := cs.drop (marks.length - 1)
        match splitCode? marks.length 0 after with
        | some (body, rest) =>
          let code := codeText (body.take (body.length - marks.length))
          proceed (some c) (.fixed code :: atoms) brackets rest
        | none => proceed (some c) (.text marks :: atoms) brackets after
      | '&' =>
        match reference? cs with
        | some (value, rest) => proceed (some ';') (.fixed value :: atoms) brackets rest
        | none => plain ()
      | '<' =>
        match autolink? cs with
        | some (address, rest) => proceed (some '>') (.text address :: atoms) brackets rest
        | none =>
          match skipInlineHtml? content.quoted cs with
          | some rest => proceed (some '>') (.text [] :: atoms) brackets rest
          | none => plain ()
      | '!' =>
        match cs with
        | '[' :: rest => proceed (some '[') [] (⟨true, true, atoms, rest⟩ :: brackets) rest
        | _ => plain ()
      | '[' => proceed (some c) [] (⟨false, true, atoms, cs⟩ :: brackets) cs
      | ']' =>
        match brackets with
        | [] => plain ()
        | b :: outer =>
          let literal (_ : Unit) :=
            proceed (some c) (.text [c] :: atoms ++ b.literal :: b.before) outer cs
          if b.isActive then
            let label := b.source.take (b.source.length - cs.length - 1)
            match skipLinkEnd? defined content.ending label cs with
            | none => literal ()
            | some (rest, hasTarget) =>
              let outer := if b.isImage then outer else
                outer.map fun o => if o.isImage then o else { o with isActive := false }
              let link := .fixed (linkText atoms) :: b.before
              proceed (some ')') (if hasTarget then .text [] :: link else link) outer rest
          else literal ()
      | _ =>
        if isLineBreak c then
          proceed (some '\n') (atoms.dropWhile isSpaceAtom) brackets
            ((afterBreak c cs).dropWhile isIndent)
        else if c == '*' || c == '_' || c == '~' then
          let marks := c :: cs.takeWhile (· == c)
          let rest := cs.drop (marks.length - 1)
          let next := rest.head?.or content.ending.head?
          let opens := canOpen c marks.length previous next
          let closes := canClose c marks.length previous next
          let atom := if (opens || closes) && (c != '~' || marks.length ≤ 2) then
              Atom.run c marks.length opens closes
            else .text marks
          proceed (some c) (atom :: atoms) brackets rest
        else plain ()
  | _, _, atoms, brackets, [] => closeAll atoms brackets
where
  /-- All atoms in order, where open brackets are only marks. -/
  closeAll (atoms : List Atom) : List Bracket → List Atom
    | [] => atoms.reverse
    | b :: outer => closeAll (atoms ++ b.literal :: b.before) outer

/-- The plain text of inline content, where the labels given are defined. Its ending is lost if the
text ends with markup. -/
def Content.plainText (defined : List (List Char)) (content : Content) : List Char :=
  Markdown.plainText (readAtoms defined content (content.text.length + 1) none [] [] content.text)
    content.ending

end Mdx.Markdown
