import HSFinancialServices.Lib.FlatObject
import HSFinancialServices.Services.Fields

/-!
# Field extraction in the UI client

`ExtractField` looks for a string first, anywhere in the text, and only then for a value
without quotes. On a flat object it finds the first string under the key, or else the
first member with that key.
-/

namespace HSFinancialServices.Ui
open Ascii FlatObject Services TextSearch

def extractField (json key : Bytes) : Bytes :=
  let needle := stringNeedle key
  match find needle json with
  | some pos =>
    let pos := pos + needle.length
    match find [quote] (json.drop pos) with
    | some len => (json.drop pos).take len
    | none => []
  | none =>
    let needle := numberNeedle key
    match find needle json with
    | none => []
    | some pos =>
      let text := (json.drop (pos + needle.length)).dropWhile fun b => b == space || b == tab
      text.takeWhile fun b => !(b == comma || b == closeBrace)

end HSFinancialServices.Ui
