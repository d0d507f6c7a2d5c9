import NodeInventory.Text.Integer
import NodeInventory.Word

/-!
# Addresses of a Redis server

An address names a scheme, possibly a user, a host, possibly one of its ports, and possibly the
number of a database. A local server is addressed by the path of its socket instead.
-/

namespace NodeInventory.Redis

/-- Whether a character may stand in the name of a host. -/
def isHostChar (c : Char) : Bool :=
  0x21 ≤ c.toNat && c.toNat != 0x7F && !"#/<>?@[\\]^|%:".toList.contains c

/-- Whether a text numbers one of the ports of a host; the empty text stands for the usual one. -/
def isPort (cs : List Char) : Bool :=
  cs.isEmpty || (cs.all Char.isDigit &&
    match Text.readNat (Word.maxNat 16) (String.ofList cs) with
    | .ok _ => true
    | .error _ => false)

/-- Whether a text names a host, in brackets or not, and possibly one of its ports. -/
def isHostAndPort (cs : List Char) : Bool :=
  match cs with
  | '[' :: rest =>
    let host := rest.takeWhile (· != ']')
    match rest.dropWhile (· != ']') with
    | [']'] => !host.isEmpty
    | ']' :: ':' :: digits => !host.isEmpty && isPort digits
    | _ => false
  | cs =>
    let host := cs.takeWhile (· != ':')
    !host.isEmpty && host.all isHostChar && isPort ((cs.dropWhile (· != ':')).drop 1)

/-- What follows the last user name mark. -/
def afterUser (cs : List Char) : List Char := (cs.reverse.takeWhile (· != '@')).reverse

/-- The number of a database, given as a path; the first one if there is no path. -/
def database? (path : List Char) : Option Int :=
  match path with
  | [] | ['/'] => some 0
  | '/' :: cs =>
    match Text.readInt (Word.maxInt 64) (String.ofList cs) with
    | .ok n => some n
    | .error _ => none
  | _ => none

/-- What follows a scheme, in whatever case the scheme is written. -/
def afterScheme? (scheme : String) (cs : List Char) : Option (List Char) :=
  let mark := scheme.toList ++ "://".toList
  if (cs.take mark.length).map Char.toLower = mark then some (cs.drop mark.length) else none

/-- The number of the database at an address, if it is one. -/
def addressedDatabase? (url : String) : Option Int :=
  let cs := url.toList
  match afterScheme? "redis" cs with
  | some rest =>
    let rest := rest.takeWhile fun c ↦ c != '?' && c != '#'
    if isHostAndPort (afterUser (rest.takeWhile (· != '/'))) then
      database? (rest.dropWhile (· != '/'))
    else none
  | none =>
    if (afterScheme? "unix" cs).isSome || (afterScheme? "redis+unix" cs).isSome then some 0
    else none

end NodeInventory.Redis
