import AutoTrade.DataSources.Tushare.Frames
import AutoTrade.Environment.BarTable

/-!
# The frames a replay trades on

What `autotrade/environment/replay/market.py` reads of the values of a frame: trade
dates, symbols and amounts.
-/

namespace AutoTrade

namespace Replay

/-- What `float(value)` returns. -/
inductive PyFloat where
  | finite (x : ℚ)
  | notFinite

/-- A `datetime`: the wall clock of one without a timezone, or the instant it names. -/
inductive PyDateTime where
  | naive (wall : Instant)
  | aware (instant : Instant)

/-- What Python reads of the values of a frame. -/
structure FrameSource (Value : Type) extends DateTimes where
  /-- `str(value)`. -/
  str : Value → Text
  /-- `float(value)`; none is a TypeError or a ValueError. -/
  float : Value → Option PyFloat
  /-- `date.fromisoformat(text).strftime("%Y%m%d")`. -/
  isoDate : Text → Option Nat
  /-- `datetime.fromisoformat(text)`. -/
  isoDateTime : Text → Option PyDateTime
  /-- The value itself, when it is a timestamp. -/
  timestamp : Value → Option PyDateTime

variable {Value : Type}

/-- `_date_text` of what `str(value)` is. -/
def dateText (source : FrameSource Value) (value : Text) : Option Nat :=
  let text := stripText value
  let normalized := if text.length = 8 ∧ text.all Char.isDigit then
      text.take 4 ++ '-' :: (text.drop 4).take 2 ++ '-' :: (text.drop 6).take 2
    else text
  source.isoDate normalized

/-- `_symbol_text` of what `str(value)` is. -/
def symbolText (value : Text) : Text := stripText value

end Replay

end AutoTrade
