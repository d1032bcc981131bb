import Esni.Bytes
import Esni.Calendar

/-!
# Timestamps

A record is valid from one moment to another. A moment is a count of seconds from the start of
1970 and nanoseconds behind them. The nanoseconds may run over, up to a whole second more, which is
how a leap second is counted. A moment that is made from its two numbers has a leap second only at
the end of a minute, but the nanoseconds of a moment can be replaced behind any second. On the wire
there are the seconds only, as a two's complement number of eight bytes.

## Main definitions

- `Timestamp` — the moments that can be represented
- `Timestamp.wire` and `Timestamp.ofWire?` — the seconds in eight bytes
- `Timestamp.text` — date and time of day
-/

namespace Esni

/-- The first second of the calendar, in the year -262143. -/
def Timestamp.firstSecond : Int := -8334601228800

/-- The last second of the calendar, in the year 262142. -/
def Timestamp.lastSecond : Int := 8210266876799

structure Timestamp where
  /-- Seconds from the start of 1970. -/
  seconds : Int
  nanoseconds : Nat
  inRange : Timestamp.firstSecond ≤ seconds ∧ seconds ≤ Timestamp.lastSecond
  /-- A leap second at most is added. -/
  nanoseconds_lt : nanoseconds < 2000000000
  deriving DecidableEq

namespace Timestamp

/-- The number of values of an eight-byte number. -/
def wireModulus : Nat := 18446744073709551616

/-- The moment with the given seconds and nanoseconds, if there is one. A leap second has to end a
minute. -/
def of? (seconds : Int) (nanoseconds : Nat) : Option Timestamp :=
  if h : (firstSecond ≤ seconds ∧ seconds ≤ lastSecond) ∧ nanoseconds < 2000000000 ∧
      (1000000000 ≤ nanoseconds → seconds % 60 = 59) then
    some ⟨seconds, nanoseconds, h.1, h.2.1⟩
  else none

/-- The moment at the start of the given second, if there is one. -/
def ofSeconds? (seconds : Int) : Option Timestamp := of? seconds 0

/-- The moment at the start of the same second. -/
def wholeSecond (moment : Timestamp) : Timestamp :=
  ⟨moment.seconds, 0, moment.inRange, by decide⟩

/-- The seconds as a two's complement number of eight bytes. -/
def wire (moment : Timestamp) : Bytes :=
  Bytes.ofNat 8 (moment.seconds % wireModulus).toNat

/-- The moment whose seconds a number of eight bytes tells, if there is one. -/
def ofWire? (value : Nat) : Option Timestamp :=
  ofSeconds? ((value : Int).bmod wireModulus)

/-- The fraction of a second: none for zero, else the fewest of three, six and nine digits that
are exact. -/
def fractionText (nanoseconds : Nat) : String :=
  if nanoseconds = 0 then ""
  else if nanoseconds % 1000000 = 0 then "." ++ decimal 3 (nanoseconds / 1000000)
  else if nanoseconds % 1000 = 0 then "." ++ decimal 6 (nanoseconds / 1000)
  else "." ++ decimal 9 nanoseconds

/-- The text of a moment, in universal time. A leap second behind the second 59 is the second 60. -/
def text (moment : Timestamp) : String :=
  let secondOfDay := (moment.seconds % 86400).toNat
  let second := secondOfDay % 60 + moment.nanoseconds / 1000000000
  (Date.ofDays (moment.seconds / 86400)).text ++ " " ++ decimal 2 (secondOfDay / 3600) ++ ":" ++
    decimal 2 (secondOfDay / 60 % 60) ++ ":" ++ decimal 2 second ++
    fractionText (moment.nanoseconds % 1000000000) ++ " UTC"

end Timestamp

end Esni
