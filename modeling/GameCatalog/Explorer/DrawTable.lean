import GameCatalog.Number.Style
import GameCatalog.Resolution.Diagnostic

/-!
# Draw tables

How often each candidate of a wildcard reference was drawn, beside how often it is
expected to be.
-/

namespace GameCatalog

structure DrawRow where
  name : String
  count : Nat
  expected : Float
  deriving DecidableEq, Repr

structure DrawTable where
  reference : String
  draws : Nat
  rows : List DrawRow
  deriving DecidableEq, Repr

namespace DrawTable

/-- The share of the draws that fell on a row; zero if there was no draw. -/
def observed (table : DrawTable) (row : DrawRow) : Float :=
  if table.draws = 0 then 0.0 else Float.ofNat row.count / Float.ofNat table.draws

def countText (n : Nat) : String :=
  String.ofList (Number.decimalDigits n)

def percentText (share : Float) : String :=
  Text.padLeft 8 (Number.fixedText 2 (share * 100.0)) ++ "%"

def line (name count observed expected : String) : String :=
  Text.padRight 32 name ++ " " ++ Text.padLeft 8 count ++ " " ++ observed ++ " " ++ expected ++ "\n"

def rowText (table : DrawTable) (row : DrawRow) : String :=
  line row.name (countText row.count) (percentText (table.observed row)) (percentText row.expected)

def heading : String :=
  line "item" "count" (Text.padLeft 9 "observed") (Text.padLeft 9 "expected")

def text (table : DrawTable) : String :=
  table.reference ++ " (" ++ countText table.draws ++ " draws)\n" ++ heading ++
    String.join (table.rows.map table.rowText)

end DrawTable

inductive DrawOutcome where
  | drawn (table : DrawTable)
  | unresolved (diagnostic : Diagnostic)

end GameCatalog
