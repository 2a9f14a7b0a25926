/-
The addresses of documents in their normal form, in which the server compares
and sends them: the scheme and the host are in small letters, the dots among the
parts of a path are resolved, and what may not stand in a part is written as the
bytes of its characters, each a percent sign and two digits.
-/
import Mdx.Text.Blank

namespace Mdx

/-- The way to a document: a list of parts, or a text that has none. -/
inductive AddressPath where
  | parts (parts : List (List Char))
  | plain (text : List Char)
  deriving DecidableEq, Repr

/-- The address of a document. -/
structure Address where
  scheme : List Char
  authority : Option (List Char)
  path : AddressPath
  query : Option (List Char)
  fragment : Option (List Char)
  deriving DecidableEq, Repr

namespace Address

/-- A digit in base sixteen. -/
def hexDigit (n : Nat) : Char := Char.ofNat (if n < 10 then 0x30 + n else 0x37 + n)

/-- A byte as a percent sign and two digits. -/
def escapeByte (b : UInt8) : List Char := ['%', hexDigit (b.toNat / 16), hexDigit (b.toNat % 16)]

/-- A character by its bytes, if it is a control character, beyond ASCII or one of some others. -/
def escapeChar (others : List Char) (c : Char) : List Char :=
  if c.toNat < 0x20 || 0x7F ≤ c.toNat || others.contains c then
    (String.utf8EncodeChar c).flatMap escapeByte
  else [c]

/-- A text in which control characters, those beyond ASCII and some others are escaped. -/
def escape (others : List Char) (cs : List Char) : List Char := cs.flatMap (escapeChar others)

/-- What is escaped in a fragment. -/
def fragmentSet : List Char := [' ', '\x22', '<', '>', '\x60']

/-- What is escaped in a part of a path. -/
def pathSet : List Char := fragmentSet ++ ['#', '?', '\x7b', '\x7d']

/-- What is escaped in the name and the password of a user. -/
def userSet : List Char := pathSet ++ ['/', ':', ';', '=', '@', '[', '\\', ']', '^', '|']

/-- What is escaped in a query. -/
def querySet (isSpecial : Bool) : List Char :=
  [' ', '\x22', '#', '<', '>'] ++ if isSpecial then ['\x27'] else []

/-- The schemes whose addresses always have a path of parts, with the number behind the host that
goes without saying. -/
def specialSchemes : List (String × Option String) :=
  [("file", none), ("ftp", some "21"), ("http", some "80"), ("https", some "443"),
    ("ws", some "80"), ("wss", some "443")]

/-- A letter and a colon or a bar, which name a drive. -/
def isDrive : List Char → Bool
  | [c, d] => c.isAlpha && (d == ':' || d == '|')
  | _ => false

/-- One dot, which may be escaped. -/
def isDot (part : List Char) : Bool :=
  [".", "%2e"].contains (String.ofList (part.map Char.toLower))

/-- Two dots, which may be escaped. -/
def isDoubleDot (part : List Char) : Bool :=
  ["..", ".%2e", "%2e.", "%2e%2e"].contains (String.ofList (part.map Char.toLower))

/-- The parts without the last one; the drive of a file stays. -/
def shorten (isFile : Bool) (parts : List (List Char)) : List (List Char) :=
  match parts with
  | [part] => if isFile && isDrive part then parts else []
  | _ => parts.dropLast

/-- The parts of a path with one more, which is resolved if it is a dot or two. -/
def addPart (isFile isLast : Bool) (parts : List (List Char)) (part : List Char) :
    List (List Char) :=
  let rest := if isLast then [[]] else []
  if isDoubleDot part then shorten isFile parts ++ rest
  else if isDot part then parts ++ rest
  else if isFile && parts.isEmpty && isDrive part then [part.take 1 ++ [':']]
  else parts ++ [part]

/-- The texts between the characters of `p`. -/
def splitBy (p : Char → Bool) : List Char → List (List Char)
  | [] => [[]]
  | c :: cs =>
    if p c then [] :: splitBy p cs
    else
      match splitBy p cs with
      | [] => [[c]]
      | part :: parts => (c :: part) :: parts

/-- The parts of a path behind its first slash. -/
def partsOf (isSlash : Char → Bool) (isFile : Bool) (cs : List Char) : List (List Char) :=
  let raw := (splitBy isSlash cs).map (escape pathSet)
  let parts := raw.dropLast.foldl (addPart isFile false) []
  let parts := addPart isFile true parts (raw.getLastD [])
  if isFile then
    let filled := parts.dropWhile List.isEmpty
    if filled.isEmpty then [[]] else filled
  else parts

/-- The name and perhaps the password of a user. -/
def userOf (cs : List Char) : List Char :=
  let name := cs.takeWhile (· != ':')
  let password := (cs.drop name.length).drop 1
  escape userSet name ++ if password.isEmpty then [] else ':' :: escape userSet password

/-- Who and where a document is served by. The host of a special scheme is in small letters and that
of another one is escaped. A number that goes without saying is left out, and the host of a file on
this machine is empty. -/
def authorityOf (scheme : String) (cs : List Char) : List Char :=
  let pieces := splitBy (· == '@') cs
  let user := (pieces.dropLast.intersperse ['@']).flatten
  let place := pieces.getLastD []
  let lowered :=
    if (specialSchemes.lookup scheme).isSome then place.map Char.toLower else escape [] place
  let host :=
    if lowered.getLast? == some ':' then lowered.dropLast
    else
      match specialSchemes.lookup scheme with
      | some (some number) =>
        let suffix := ':' :: number.toList
        if suffix.isSuffixOf lowered then lowered.take (lowered.length - suffix.length) else lowered
      | _ => lowered
  if scheme == "file" then if host == "localhost".toList then [] else host
  else (if user.isEmpty then [] else userOf user ++ ['@']) ++ host

/-- The address without a query and a fragment that a text behind a scheme stands for. -/
def ofPlace (scheme : String) (cs : List Char) : Option (List Char) × AddressPath :=
  let isFile := scheme == "file"
  let isSpecial := (specialSchemes.lookup scheme).isSome
  let isSlash (c : Char) : Bool := c == '/' || (isSpecial && c == '\\')
  let slashes := (cs.takeWhile isSlash).length
  let parts (cs : List Char) : AddressPath := .parts (partsOf isSlash isFile cs)
  let behindHost (cs : List Char) : Option (List Char) × AddressPath :=
    let host := cs.takeWhile (!isSlash ·)
    let rest := cs.drop host.length
    if isFile && isDrive host then (some [], parts cs)
    else
      let authority := authorityOf scheme host
      if rest.isEmpty && !isSpecial then (some authority, .parts [])
      else
        let path := parts (rest.drop 1)
        match path with
        | .parts (first :: _) => (some (if isFile && isDrive first then [] else authority), path)
        | _ => (some authority, path)
  if isFile then
    if 2 ≤ slashes then behindHost (cs.drop 2) else (some [], parts (cs.drop slashes))
  else if isSpecial then behindHost (cs.drop slashes)
  else if 2 ≤ slashes then behindHost (cs.drop 2)
  else if slashes = 1 then (none, parts (cs.drop 1))
  else (none, .plain (escape [] cs))

/-- The address that a text stands for. Blanks and control characters at its ends, line ends and
tabs are no part of it. -/
def ofText? (text : String) : Option Address :=
  let isEdge (c : Char) : Bool := c.toNat ≤ 0x20
  let cs := (trimRightBy isEdge (text.toList.dropWhile isEdge)).filter fun c =>
    c != '\t' && c != '\n' && c != '\r'
  let name := cs.takeWhile fun c => c.isAlphanum || c == '+' || c == '-' || c == '.'
  match cs.drop name.length with
  | ':' :: rest =>
    if name.head?.any Char.isAlpha then
      let scheme := name.map Char.toLower
      let beforeFragment := rest.takeWhile (· != '#')
      let place := beforeFragment.takeWhile (· != '?')
      let isSpecial := (specialSchemes.lookup (String.ofList scheme)).isSome
      let (authority, path) := ofPlace (String.ofList scheme) place
      let tail (mark : Char) (set : List Char) (cs : List Char) : Option (List Char) :=
        if cs.head? == some mark then some (escape set (cs.drop 1)) else none
      some {
        scheme, authority, path
        query := tail '?' (querySet isSpecial) (beforeFragment.drop place.length)
        fragment := tail '#' fragmentSet (rest.drop beforeFragment.length) }
    else none
  | _ => none

/-- The text of an address. A path whose first part is empty would be taken for an authority where
there is none, so a dot stands before it. -/
def toText (a : Address) : String :=
  let path := match a.path with
    | .parts parts =>
      let text := parts.flatMap ('/' :: ·)
      if a.authority.isNone && ['/', '/'].isPrefixOf text then '/' :: '.' :: text else text
    | .plain text => text
  String.ofList (a.scheme ++ ':' ::
    (a.authority.elim [] (['/', '/'] ++ ·) ++ path ++ a.query.elim [] ('?' :: ·) ++
      a.fragment.elim [] ('#' :: ·)))

/-- The normal form of an address; a text that is none stays as it is. -/
def normalize (text : String) : String := ((ofText? text).map toText).getD text

end Address

end Mdx
