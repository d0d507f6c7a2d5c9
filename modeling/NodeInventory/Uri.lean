/-!
# Addresses of resources

Which texts are addresses, and what of a path is sent. An address is a path, an authority alone, or
a scheme, an authority and a path. All its characters are ASCII, without blanks and controls; what
follows a `#` in the path is not sent and not looked at.
-/

namespace NodeInventory.Uri

/-! ## Paths -/

/-- Whether a character may stand in a path. -/
def isPathChar (c : Char) : Bool :=
  let n := c.toNat
  n == 0x21 || n == 0x22 || (0x24 ≤ n && n ≤ 0x3B) || n == 0x3D || (0x40 ≤ n && n ≤ 0x5F) ||
    (0x61 ≤ n && n ≤ 0x7E)

/-- Whether a character may stand in a query. -/
def isQueryChar (c : Char) : Bool :=
  let n := c.toNat
  n == 0x21 || (0x24 ≤ n && n ≤ 0x3B) || n == 0x3D || (0x3F ≤ n && n ≤ 0x7E)

/-- The part of a query that is sent. -/
def sentQuery? : List Char → Option (List Char)
  | [] => some []
  | '#' :: _ => some []
  | c :: cs => if isQueryChar c then (sentQuery? cs).map (c :: ·) else none

/-- The part of a path that is sent, with the query that may follow it. -/
def sentPath? : List Char → Option (List Char)
  | [] => some []
  | '#' :: _ => some []
  | '?' :: cs => (sentQuery? cs).map ('?' :: ·)
  | c :: cs => if isPathChar c then (sentPath? cs).map (c :: ·) else none

/-- The length in bytes that no address reaches. -/
def lengthBound : Nat := 65535

/-- What is sent of an address that is a path. -/
def sent? (s : String) : Option (List Char) :=
  if lengthBound ≤ s.utf8ByteSize then none else sentPath? s.toList

/-! ## Schemes and authorities -/

/-- Whether a character may stand in a scheme. -/
def isSchemeChar (c : Char) : Bool := c.isAlphanum || c == '+' || c == '-' || c == '.'

/-- The greatest length of a scheme. -/
def maxSchemeLength : Nat := 64

/-- What follows the scheme, and whether there is one; nothing if the scheme is too long. An
authority may start like a scheme, so there is none without its two slashes. -/
def afterScheme? (cs : List Char) : Option (Bool × List Char) :=
  let scheme := cs.takeWhile isSchemeChar
  match cs.dropWhile isSchemeChar with
  | ':' :: '/' :: '/' :: rest =>
    if cs.length ≤ 3 then some (false, cs)
    else if scheme.length ≤ maxSchemeLength then some (true, rest)
    else none
  | _ => some (false, cs)

/-- Whether a character may stand in an authority, percent signs aside. -/
def isAuthorityChar (c : Char) : Bool :=
  c.isAlphanum || "!$&'()*+,-.:;=@[]_~".toList.contains c

/-- Where the reading of an authority stands. -/
structure AuthorityState where
  /-- The colons that may stand before one of the ports of a host. -/
  colons : Nat := 0
  opened : Bool := false
  closed : Bool := false
  /-- Whether there is a percent sign outside of user names and brackets. -/
  percent : Bool := false
  /-- Whether the last character was the end of a user name. -/
  atEnd : Bool := false

/-- Reads one character of an authority. -/
def AuthorityState.step (s : AuthorityState) (c : Char) : Option AuthorityState :=
  match c with
  | ':' => if s.colons < 8 then some { s with colons := s.colons + 1, atEnd := false } else none
  | '[' => if s.percent || s.opened then none else some { s with opened := true, atEnd := false }
  | ']' =>
    if !s.opened || s.closed then none
    else some { s with closed := true, colons := 0, percent := false, atEnd := false }
  | '@' => some { s with colons := 0, percent := false, atEnd := true }
  | '%' => some { s with percent := true, atEnd := false }
  | c => if isAuthorityChar c then some { s with atEnd := false } else none

/-- Whether an authority may end here: brackets are closed, there is at most one colon, and no user
name without a host. -/
def AuthorityState.mayEnd (s : AuthorityState) : Bool :=
  s.opened == s.closed && s.colons ≤ 1 && !s.atEnd && !s.percent

/-- Reads characters of an authority. -/
def readAuthority : List Char → AuthorityState → Option AuthorityState
  | [], s => some s
  | c :: cs, s => (s.step c).bind (readAuthority cs)

/-- Whether an authority ends before this character. -/
def endsAuthority (c : Char) : Bool := c == '/' || c == '?' || c == '#'

/-- Whether a text is an address. -/
def isAddress (s : String) : Bool :=
  if lengthBound ≤ s.utf8ByteSize then false
  else
    match s.toList with
    | [] => false
    | ['*'] => true
    | '/' :: cs => (sentPath? ('/' :: cs)).isSome
    | cs =>
      match afterScheme? cs with
      | none => false
      | some (hasScheme, rest) =>
        let authority := rest.takeWhile (!endsAuthority ·)
        let path := rest.dropWhile (!endsAuthority ·)
        let sound := ((readAuthority authority {}).map (·.mayEnd)).getD false
        if hasScheme then sound && !authority.isEmpty && (sentPath? path).isSome
        else sound && path.isEmpty

end NodeInventory.Uri
