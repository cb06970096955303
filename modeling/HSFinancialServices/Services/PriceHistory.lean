import HSFinancialServices.Services.Handlers
import Mathlib.Algebra.Order.Ring.Rat
import Mathlib.Algebra.Order.Group.Abs

/-!
# The price history handler

Doubles are a parameter: their operations, the rounding of literals and the
default formatting of output streams belong to the platform. The rest of the
handler, the days it accepts, the loop over the candles and the dates, is here.
-/

namespace HSFinancialServices.Services
open Ascii

/-- `double` and what the handler does with it. -/
structure Doubles (D : Type*) where
  literal : ℚ → D
  ofInt : ℤ → D
  add : D → D → D
  sub : D → D → D
  mul : D → D → D
  abs : D → D
  sin : D → D
  cos : D → D
  max : D → D → D
  min : D → D → D
  toInt64 : D → ℤ
  print : D → Bytes

structure Date where
  year : ℤ
  month : ℕ
  day : ℕ
  deriving DecidableEq, Repr

def isLeapYear (year : ℤ) : Bool := year % 4 = 0 && (year % 100 ≠ 0 || year % 400 = 0)

def daysInMonth (year : ℤ) (month : ℕ) : ℕ :=
  if month = 2 then if isLeapYear year then 29 else 28
  else if month = 4 || month = 6 || month = 9 || month = 11 then 30 else 31

def Date.next (d : Date) : Date :=
  if d.day < daysInMonth d.year d.month then { d with day := d.day + 1 }
  else if d.month < 12 then { d with month := d.month + 1, day := 1 }
  else ⟨d.year + 1, 1, 1⟩

def Date.previous (d : Date) : Date :=
  if 1 < d.day then { d with day := d.day - 1 }
  else if 1 < d.month then { d with month := d.month - 1, day := daysInMonth d.year (d.month - 1) }
  else ⟨d.year - 1, 12, 31⟩

def gmtime (t : ℤ) : Date :=
  match t / 86400 with
  | .ofNat n => Date.next^[n] ⟨1970, 1, 1⟩
  | .negSucc n => Date.previous^[n + 1] ⟨1970, 1, 1⟩

def twoDigits (n : ℕ) : Bytes := [digit (n / 10 % 10), digit (n % 10)]

/-- `strftime` with `%Y-%m-%d`; the buffer of the source has room for every year of
fewer than ten digits. -/
def formatDate (t : ℤ) : Bytes :=
  let tm := gmtime t
  decimalInt tm.year ++ minus :: twoDigits tm.month ++ minus :: twoDigits tm.day

structure Candle (D : Type*) where
  date : Bytes
  open_ : D
  high : D
  low : D
  close_ : D
  volume : ℤ

variable {D : Type*} (dbl : Doubles D)

/-- `static_cast<int>` of a plain `char`, which is signed. -/
def signedChar (c : UInt8) : ℤ := if c < 128 then c.toNat else c.toNat - 256

def basePrice (symbol : Bytes) : D :=
  symbol.foldl (fun price c => dbl.add price (dbl.mul (dbl.ofInt (signedChar c)) (dbl.literal 0.01)))
    (dbl.literal 182.5)

def candle (base : D) (now : ℤ) (i : ℕ) : Candle D :=
  let x := dbl.ofInt i
  let delta := dbl.mul (dbl.sin (dbl.mul x (dbl.literal 0.42))) (dbl.literal 2.0)
  let opening := dbl.add base delta
  let closing := dbl.add opening
    (dbl.mul (dbl.cos (dbl.mul x (dbl.literal 0.31))) (dbl.literal 1.5))
  { date := formatDate (now - i * 86400)
    open_ := opening
    high := dbl.add (dbl.max opening closing)
      (dbl.mul (dbl.abs (dbl.sin (dbl.mul x (dbl.literal 0.7)))) (dbl.literal 0.8))
    low := dbl.sub (dbl.min opening closing)
      (dbl.mul (dbl.abs (dbl.cos (dbl.mul x (dbl.literal 0.7)))) (dbl.literal 0.8))
    close_ := closing
    volume := 20000000 + dbl.toInt64 (dbl.abs (dbl.mul (dbl.sin x) (dbl.literal 15000000.0))) }

def candleText (c : Candle D) : Bytes :=
  ascii "\x7b\"date\":\"" ++ c.date ++ ascii "\",\"open\":" ++ dbl.print c.open_ ++
    ascii ",\"high\":" ++ dbl.print c.high ++ ascii ",\"low\":" ++ dbl.print c.low ++
    ascii ",\"close\":" ++ dbl.print c.close_ ++ ascii ",\"volume\":" ++ decimalInt c.volume ++
    [closeBrace]

def effectiveDays (requestJson : Bytes) : ℕ :=
  let days := extractInt requestJson (ascii "days") 30
  if days ≤ 0 ∨ 365 < days then 30 else days.toNat

def historySymbol (requestJson : Bytes) : Bytes :=
  orDefault (extractString requestJson (ascii "symbol")) (ascii "AAPL")

def historyCandles (requestJson : Bytes) (now : ℤ) : List (Candle D) :=
  (List.range (effectiveDays requestJson)).reverse.map
    (candle dbl (basePrice dbl (historySymbol requestJson)) now)

def commaJoin : List Bytes → Bytes
  | [] => []
  | t :: ts => t ++ ts.flatMap fun u => comma :: u

def handleGetPriceHistory (requestJson : Bytes) (now : ℤ) : Bytes :=
  ascii "\x7b\"symbol\":\"" ++ historySymbol requestJson ++ ascii "\",\"history\":[" ++
    commaJoin ((historyCandles dbl requestJson now).map (candleText dbl)) ++ ascii "]\x7d"

theorem effectiveDays_bounds (requestJson : Bytes) :
    1 ≤ effectiveDays requestJson ∧ effectiveDays requestJson ≤ 365 := by
  simp only [effectiveDays]
  split_ifs with h
  · decide
  · omega

/-- Exact arithmetic with the values of sine and cosine at zero, which is all that the candle
of the current day takes; prices are printed with their two decimals. -/
def exactDoubles : Doubles ℚ where
  literal := id
  ofInt z := z
  add := (· + ·)
  sub := (· - ·)
  mul := (· * ·)
  abs x := |x|
  sin _ := 0
  cos _ := 1
  max := Max.max
  min := Min.min
  toInt64 x := x.num.tdiv x.den
  print x :=
    let cents := (x * 100).floor
    decimalInt (cents / 100) ++ point :: twoDigits (cents % 100).toNat

end HSFinancialServices.Services
