import HiveForum.Text.Hex
import HiveForum.Text.Numeral

/-!
# Socket addresses

An address has four decimal numbers with dots between them, or eight hexadecimal groups with
colons between them; one run of zero groups may be left out, and the last two groups may be written
as four decimal numbers. A port follows after a colon; an address of groups stands in brackets, and
may name a zone.

## Main definitions

* `Ipv4`, `Ipv6`, `SocketAddress`: the addresses.
* `SocketAddress.parse?`, `SocketAddress.text`: the written forms.
-/

namespace HiveForum

/-- An address of four numbers. -/
structure Ipv4 where
  a : UInt8
  b : UInt8
  c : UInt8
  d : UInt8
deriving DecidableEq, Inhabited

/-- An address of eight groups. -/
structure Ipv6 where
  groups : List UInt16
  length_groups : groups.length = 8
deriving DecidableEq

/-- An address with a port. -/
inductive SocketAddress where
  | v4 (ip : Ipv4) (port : UInt16)
  /-- An address of eight groups, in a zone; zero is no zone. -/
  | v6 (ip : Ipv6) (zone : UInt32) (port : UInt16)
deriving DecidableEq

namespace SocketAddress

/-! ### Reading -/

/-- Reads something off the start of some characters. Gives it and the characters after it. -/
abbrev Reader (α : Type) : Type := List Char → Option (α × List Char)

/-- Reads a given character. -/
def expect (c : Char) : List Char → Option (List Char)
  | [] => none
  | d :: rest => if d = c then some rest else none

/-- Reads the run of decimal digits at the start, of a number that is at most `largest`. -/
def readDecimal (largest : Nat) : Reader Nat := fun cs =>
  let run := cs.takeWhile fun c => (Numeral.digit? c).isSome
  if run.isEmpty then none
  else
    match (Numeral.value? run).filter (· ≤ largest) with
    | none => none
    | some n => some (n, cs.drop run.length)

/-- Reads a number of an address: at most three digits, and no zero before another digit. -/
def readOctet : Reader UInt8 := fun cs =>
  let run := cs.takeWhile fun c => (Numeral.digit? c).isSome
  if 3 < run.length ∨ (1 < run.length ∧ run.head? = some '0') then none
  else (readDecimal 255 cs).map fun (n, rest) => (UInt8.ofNat n, rest)

/-- Reads a group of an address: one to four hexadecimal digits. -/
def readGroup : Reader UInt16 := fun cs =>
  let run := cs.takeWhile fun c => (Hex.digit? c).isSome
  if run.isEmpty ∨ 4 < run.length then none
  else (Hex.number? run).map fun n => (UInt16.ofNat n, cs.drop run.length)

/-- Reads an address of four numbers. -/
def readIpv4 : Reader Ipv4 := fun cs => do
  let (a, cs) ← readOctet cs
  let (b, cs) ← (expect '.' cs).bind readOctet
  let (c, cs) ← (expect '.' cs).bind readOctet
  let (d, cs) ← (expect '.' cs).bind readOctet
  some (⟨a, b, c, d⟩, cs)

/-- The two groups that four numbers are written for. -/
def groupsOf (ip : Ipv4) : List UInt16 :=
  [ip.a.toUInt16 * 256 + ip.b.toUInt16, ip.c.toUInt16 * 256 + ip.d.toUInt16]

/-- The groups read off the start of some characters. -/
structure Groups where
  groups : List UInt16
  endsInIpv4 : Bool
  rest : List Char

/-- Reads as many groups as there are, up to a number of slots; `first` says that no colon precedes
the next one. Four numbers take two slots and end the groups. -/
def readGroups : (slots : Nat) → (first : Bool) → List Char → Groups
  | 0, _, cs => ⟨[], false, cs⟩
  | slots + 1, first, cs =>
    match if first then some cs else expect ':' cs with
    | none => ⟨[], false, cs⟩
    | some body =>
      match if slots = 0 then none else readIpv4 body with
      | some (ip, rest) => ⟨groupsOf ip, true, rest⟩
      | none =>
        match readGroup body with
        | none => ⟨[], false, cs⟩
        | some (group, rest) =>
          let more := readGroups slots false rest
          { more with groups := group :: more.groups }

/-- The address with the given groups. -/
def ofGroups? (groups : List UInt16) : Option Ipv6 :=
  if h : groups.length = 8 then some ⟨groups, h⟩ else none

/-- Reads an address of eight groups. If there are fewer, two colons stand for the zero groups that
were left out, one at least; four numbers cannot precede them. -/
def readIpv6 : Reader Ipv6 := fun cs =>
  let front := readGroups 8 true cs
  if front.groups.length = 8 then (ofGroups? front.groups).map (·, front.rest)
  else if front.endsInIpv4 then none
  else
    match (expect ':' front.rest).bind (expect ':') with
    | none => none
    | some rest =>
      let back := readGroups (7 - front.groups.length) true rest
      let zeros := List.replicate (8 - front.groups.length - back.groups.length) 0
      (ofGroups? (front.groups ++ zeros ++ back.groups)).map (·, back.rest)

/-- Reads a colon and a port. -/
def readPort : Reader UInt16 := fun cs =>
  ((expect ':' cs).bind (readDecimal 65535)).map fun (n, rest) => (UInt16.ofNat n, rest)

/-- Reads a zone, if there is one. -/
def readZone (cs : List Char) : UInt32 × List Char :=
  match (expect '%' cs).bind (readDecimal 4294967295) with
  | some (n, rest) => (UInt32.ofNat n, rest)
  | none => (0, cs)

/-- Reads an address of four numbers with a port. -/
def readV4 : Reader SocketAddress := fun cs => do
  let (ip, cs) ← readIpv4 cs
  let (port, cs) ← readPort cs
  some (.v4 ip port, cs)

/-- Reads an address of eight groups with a port. -/
def readV6 : Reader SocketAddress := fun cs => do
  let (ip, cs) ← (expect '[' cs).bind readIpv6
  let (zone, cs) := readZone cs
  let (port, cs) ← (expect ']' cs).bind readPort
  some (.v6 ip zone port, cs)

/-- Reads an address with a port; nothing may follow it. -/
def parse? (text : String) : Option SocketAddress :=
  match readV4 text.toList <|> readV6 text.toList with
  | some (address, []) => some address
  | _ => none

/-! ### Writing -/

/-- The written form of four numbers. -/
def ipv4Chars (ip : Ipv4) : List Char :=
  ['.'].intercalate ([ip.a, ip.b, ip.c, ip.d].map fun octet => Numeral.natural octet.toNat)

/-- The written form of groups, with colons between them. -/
def groupsChars (groups : List UInt16) : List Char :=
  [':'].intercalate (groups.map fun group => Hex.natural group.toNat)

/-- The number of zeros at the start. -/
def zerosAtStart (groups : List UInt16) : Nat := (groups.takeWhile (· = 0)).length

/-- Where the first of the longest runs of zeros starts, and how long it is. -/
def longestZeros (groups : List UInt16) : Nat × Nat :=
  (List.range groups.length).foldl
    (fun longest start =>
      let length := zerosAtStart (groups.drop start)
      if longest.2 < length then (start, length) else longest)
    (0, 0)

/-- The four numbers that the last two groups stand for, if the groups before them mark them as
such. -/
def mapped? (groups : List UInt16) : Option Ipv4 :=
  match groups with
  | [0, 0, 0, 0, 0, 0xffff, g, h] =>
    some ⟨(g / 256).toUInt8, g.toUInt8, (h / 256).toUInt8, h.toUInt8⟩
  | _ => none

/-- The written form of eight groups: the longest run of two or more zeros is left out. -/
def ipv6Chars (ip : Ipv6) : List Char :=
  match mapped? ip.groups with
  | some ip => "::ffff:".toList ++ ipv4Chars ip
  | none =>
    let (start, length) := longestZeros ip.groups
    if 1 < length then
      groupsChars (ip.groups.take start) ++ "::".toList ++
        groupsChars (ip.groups.drop (start + length))
    else groupsChars ip.groups

/-- The written form of a zone; none for no zone. -/
def zoneChars (zone : UInt32) : List Char :=
  if zone = 0 then [] else '%' :: Numeral.natural zone.toNat

/-- The written form of an address with a port. -/
def chars : SocketAddress → List Char
  | .v4 ip port => ipv4Chars ip ++ ':' :: Numeral.natural port.toNat
  | .v6 ip zone port =>
    '[' :: ipv6Chars ip ++ zoneChars zone ++ ']' :: ':' :: Numeral.natural port.toNat

/-- The written form of an address with a port, as a text. -/
def text (address : SocketAddress) : String := String.ofList address.chars

end SocketAddress

end HiveForum
