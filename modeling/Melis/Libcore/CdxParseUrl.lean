import Melis.Lib.CString

/-!
# CdxParseUrl

`CdxParseUrl.c`: a URL is escaped and then cut into its parts. Pointers into the escaped string
are the rests of it, and positions and lengths are differences of them. `none` is a use of
memory outside the buffers; the other `none` of `CdxUrlNew` is `NULL`. `room` is the most that
the first `malloc` can find; the smaller blocks asked for after it are taken to be there.
-/

namespace Melis.Libcore

open Lib

/-! ## Escaping -/

/-- The marks and reserved characters, which `CdxUrlEscapeString` writes out. -/
def kept (c : Char) : Bool :=
  ['-', '_', '.', '!', '~', '*', '\'', '(', ')', ';', '/', '?', ':', '@', '&', '=', '+', '$', ',',
    '[', ']'].contains c

def alnum (c : Char) : Bool :=
  ('A' ≤ c && c ≤ 'Z') || ('a' ≤ c && c ≤ 'z') || ('0' ≤ c && c ≤ '9')

/-- A hexadecimal digit, of either case. -/
def isHex (c : Char) : Bool :=
  ('0' ≤ c && c ≤ '9') || ('A' ≤ c && c ≤ 'F') || ('a' ≤ c && c ≤ 'f')

/-- Whether two hexadecimal digits are next. -/
def hexPair : CStr → Bool
  | c₁ :: c₂ :: _ => isHex c₁ && isHex c₂
  | _ => false

/-- `c + '0'`, or `c + 'A' - 10`. -/
def hexDigit (n : Nat) : Char := if n < 10 then Char.ofNat (48 + n) else Char.ofNat (55 + n)

def percent (c : Char) : CStr :=
  ['%', hexDigit (c.toNat / 16 % 16), hexDigit (c.toNat % 16)]

def CdxUrlEscapeStringPart : CStr → CStr
  | [] => []
  | c :: cs =>
    (if alnum c then [c] else if c = '%' ∧ hexPair cs then [c] else percent c) ++
      CdxUrlEscapeStringPart cs

/-- The loop of `CdxUrlEscapeString` from `i` on: a character that is kept, or the part up to the
next one. -/
def escapeLoop : Nat → CStr → CStr
  | 0, _ => []
  | _ + 1, [] => []
  | fuel + 1, c :: cs =>
    if kept c then c :: escapeLoop fuel cs
    else
      CdxUrlEscapeStringPart ((c :: cs).takeWhile fun c => !kept c) ++
        escapeLoop fuel ((c :: cs).dropWhile fun c => !kept c)

/-- Whether the string ends, or goes on with a port or a path. -/
def atEnd : CStr → Bool
  | [] => true
  | c :: _ => c = '/' || c = ':'

/-- The rest of the string behind an IPv6 address: up to there nothing is escaped. -/
def behindIp6 (pInbuf : CStr) : Option CStr :=
  (strstr pInbuf "://[".toList).bind fun pTmp =>
    (strchr (pTmp.drop 4) ']').bind fun pTmp =>
      if atEnd (pTmp.drop 1) then some (pTmp.drop 1) else none

def CdxUrlEscapeString (pInbuf : CStr) : CStr :=
  match behindIp6 pInbuf with
  | some rest => pInbuf.take (pInbuf.length - rest.length) ++ escapeLoop rest.length rest
  | none => escapeLoop pInbuf.length pInbuf

/-! ## Parsing -/

/-- `CdxUrlT` but for `noauth_url`, which stays `NULL`. -/
structure CdxUrl where
  url : CStr
  protocol : CStr
  hostname : CStr
  file : CStr
  port : Nat
  username : Option CStr
  password : Option CStr
  deriving DecidableEq, Repr

/-- `p3 != NULL && p3 < p2` -/
def isBefore (p3 : Option CStr) (p2 : CStr) : Bool := p3.any fun p3 => p2.length < p3.length

/-- What a `username:password` takes: the two of them and the new `p1`. -/
structure Credentials where
  username : Option CStr := none
  password : Option CStr := none
  p1 : CStr
  deriving DecidableEq, Repr

def credentials (p1 : CStr) : Option Credentials :=
  match strrchr p1 '@' with
  | none => some { p1 }
  | some p2 =>
    if isBefore (strstr p1 ['/']) p2 then some { p1 }
    else
      (strncpy p1 (p1.length - p2.length)).bind fun username =>
        match strstr p1 [':'] with
        | some p3 =>
          if p2.length < p3.length then
            (strncpy (p3.drop 1) (p3.length - p2.length - 1)).map fun password =>
              { username := some (username.take (p1.length - p3.length)), password := some password
                p1 := p2.drop 1 }
          else some { username := some username, p1 := p2.drop 1 }
        | none => some { username := some username, p1 := p2.drop 1 }

/-- Where an address in brackets ends, if there is one. -/
def ip6End (p1 : CStr) : Option CStr :=
  (strstr p1 ['[']).bind fun p2 => (strstr p1 [']']).bind fun p3 =>
    if p3.length < p2.length ∧ (strstr p1 ['/']).all (fun p4 => p4.length < p3.length) then some p3
    else none

/-- What is found from the host on. -/
structure Host where
  hostname : CStr
  port : Nat
  file : CStr
  deriving DecidableEq, Repr

/-- From `p1` on, with the `:` looked for from `p2` on; `pos2` is counted from the end of the
string. -/
def hostPart (p1 p2 : CStr) (v6addr : Bool) : Option Host :=
  let p3 := strstr p1 ['/']
  let p2 := (strstr p2 [':']).filter fun p2 => !isBefore p3 p2
  let port := match p2 with
    | some p2 => u32 (atoi (p2.drop 1))
    | none => 0
  let pos2 : Int := match p2, p3 with
    | some p2, _ => -p2.length
    | none, some p3 => -p3.length
    | none, none => 0
  let pos2 := if v6addr then pos2 - 1 else pos2
  (strncpy p1 (pos2 + p1.length)).map fun hostname =>
    { hostname, port
      file := match p3 with
        | some p2 => if 1 < p2.length then p2 else ['/']
        | none => ['/'] }

/-- `CdxUrlNew` from the end of the credentials on. -/
def hostFrom (p1 : CStr) : Option Host :=
  match ip6End p1 with
  | some p3 => hostPart (p1.drop 1) p3 true
  | none => hostPart p1 p1 false

/-- `CdxUrlNew` from the `"://"` on. -/
def parseUrl (pEscName p1 : CStr) : Option CdxUrl :=
  (strncpy pEscName (pEscName.length - p1.length)).bind fun protocol =>
    (credentials (p1.drop 3)).bind fun c =>
      (hostFrom c.p1).map fun host =>
        { url := pEscName, protocol, hostname := host.hostname, file := host.file
          port := host.port, username := c.username, password := c.password }

def CdxUrlNew (room : Nat) (url : CStr) : Option (Option CdxUrl) :=
  if (2 ^ 32 - 1) / 3 - 1 < url.length then some none
  else if room < url.length * 3 + 1 then some none
  else
    let pEscName := CdxUrlEscapeString url
    match strstr pEscName "://".toList with
    | some p1 => (parseUrl pEscName p1).map some
    -- `p1 = &url[3]`: the difference to `pEscName` is one of two blocks
    | none => if "sip:".toList.isPrefixOf pEscName then none else some none

example : CdxUrlNew 1000 "http://me:pw@[::1]:80/a b".toList =
    some (some { url := "http://me:pw@[::1]:80/a%20b".toList, protocol := "http".toList,
                 hostname := "::1".toList, file := "/a%20b".toList, port := 80,
                 username := some "me".toList, password := some "pw".toList }) := by decide +kernel

end Melis.Libcore
