import IndexRefresh.Text.Blank
import IndexRefresh.Text.Numeral

namespace IndexRefresh

abbrev Duration := Nat

namespace Duration

def ofSeconds (n : Nat) : Duration :=
  n * 1000000000

def ofMillis (n : Nat) : Duration :=
  n * 1000000

def seconds (d : Duration) : Nat :=
  d / 1000000000

def millis (d : Duration) : Nat :=
  d / 1000000

def inUnit (d unit width : Nat) : List Char :=
  let fraction := Text.dropEnd (· == '0') (Text.padded width (d % unit))
  Text.digits (d / unit) ++
    (if d % unit = 0 then [] else '.' :: fraction)

def text (d : Duration) : String :=
  String.ofList <|
    if 1000000000 ≤ d then inUnit d 1000000000 9 ++ ['s']
    else if 1000000 ≤ d then inUnit d 1000000 6 ++ ['m', 's']
    else if 1000 ≤ d then inUnit d 1000 3 ++ ['µ', 's']
    else Text.digits d ++ ['n', 's']

end Duration

end IndexRefresh
